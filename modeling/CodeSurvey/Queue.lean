-- The queue of jobs. One drain starts jobs, each of them on a task of its own
-- that holds one of the slots, and callers ask for jobs, call them off, report
-- on them and remove old ones. A step of the queue is one thing that nobody can
-- come between: a change of the table, the telling of an event, the taking or
-- giving back of a slot, or a ring of the bell. So a run of the queue is any
-- order of such steps.
import CodeSurvey.Queue.Work
import CodeSurvey.Settings

namespace CodeSurvey

/-! ## Who is doing what -/

/-- Where the drain is. -/
inductive Drain where
  /-- It has not been started. -/
  | off
  /-- It looks whether it shall stop. -/
  | checking
  /-- It waits for a slot. -/
  | acquiring
  /-- With a slot, it looks for a job. -/
  | claiming
  /-- With a slot, it has started a job and not told it. -/
  | telling (job : Job)
  /-- With a slot, it found no job. -/
  | resting
  /-- With a slot, it waits for the bell. -/
  | waiting
  /-- With a slot, it heard the bell. -/
  | woken
  /-- It is over. -/
  | stopped

def Drain.holdsSlot : Drain → Bool
  | claiming => true
  | telling _ => true
  | resting => true
  | waiting => true
  | woken => true
  | _ => false

/-- Where the task of a job is. -/
inductive Stage (σ : Type) where
  /-- It looks for the handler. -/
  | looking (job : Job)
  /-- The handler is at work. -/
  | running (work : Work σ)
  /-- The handler is at work, and an event of its report is to be told. -/
  | reporting (event : JobEvent) (rest : Work σ)
  /-- The handler is done. -/
  | ended (outcome : Outcome)
  /-- The job has ended, and the event is to be told. -/
  | telling (event : JobEvent)
  /-- The slot is to be given back. -/
  | releasing
  /-- The bell is to be rung. -/
  | ringing

def Stage.holdsSlot {σ : Type} : Stage σ → Bool
  | ringing => false
  | _ => true

def Stage.isExecuting {σ : Type} : Stage σ → Bool
  | running _ => true
  | reporting _ _ => true
  | _ => false

/-- The task of a job. -/
structure Task (σ : Type) where
  job : String
  stage : Stage σ

/-- What is left of a call, once the table has been looked at or changed. -/
inductive Call where
  /-- An event is to be told, and then the bell may have to be rung. -/
  | telling (event : JobEvent) (rings : Bool)
  /-- The bell is to be rung. -/
  | ringing
  /-- Jobs were found that are kept no longer. -/
  | evicting (ids : List String) (now : Instant)
deriving Repr

/-! ## The queue -/

/-- A queue of jobs, with the state that their work shares. -/
structure Queue (σ : Type) where
  settings : QueueSettings
  table : JobTable
  /-- All ids that were given to jobs, in order. -/
  issued : List String
  /-- The handlers of the types of jobs, the newest in front. -/
  handlers : List (String × Handler σ)
  /-- The slots that nobody holds. -/
  free : Nat
  /-- The bell was rung and nobody heard it. -/
  rung : Bool
  started : Bool
  /-- The drain shall stop. -/
  stopping : Bool
  drain : Drain
  /-- In the order in which the jobs were started. -/
  tasks : List (Task σ)
  calls : List Call
  shared : σ

/-- What shows of a step. -/
inductive Signal where
  /-- An event is told. -/
  | told (event : JobEvent)
  /-- A handler is given a job. -/
  | handed (job : Job)
  /-- A caller is told whether the call did anything. -/
  | answered (yes : Bool)
  /-- A caller is told how many old jobs were removed. -/
  | swept (count : Nat)
deriving Repr

namespace Queue

variable {σ : Type}

def slots (s : QueueSettings) : Nat := max 1 s.concurrency.toNat

/-- A queue without jobs that has not been started. -/
def fresh (s : QueueSettings) (shared : σ) : Queue σ where
  settings := s
  table := .empty
  issued := []
  handlers := []
  free := slots s
  rung := false
  started := false
  stopping := false
  drain := .off
  tasks := []
  calls := []
  shared := shared

/-- The handler that was registered last for a type. -/
def handler? (q : Queue σ) (type : String) : Option (Handler σ) :=
  (q.handlers.find? (·.1 = type)).map (·.2)

/-- The number of handlers that are at work. -/
def executing (q : Queue σ) : Nat := q.tasks.countP (·.stage.isExecuting)

/-- The bell wakes the drain if that waits for it; else it is heard later. However often it is
rung, it is heard once. -/
def ring (q : Queue σ) : Queue σ :=
  match q.drain with
  | .waiting => { q with drain := .woken }
  | _ => { q with rung := true }

abbrev Stepped (σ : Type) := List Signal × Queue σ

/-! ## The steps of callers -/

/-- A job is asked for. Its id must be a new one. -/
def enqueue (id : String) (request : JobRequest) (now : Instant) (q : Queue σ) :
    Option (Stepped σ) :=
  if id ∈ q.issued then none
  else some ([], { q with
    table := q.table.push (.ofRequest id now request)
    issued := q.issued ++ [id]
    calls := q.calls ++ [.telling (.enqueued id request.repository) true] })

def cancel (id : String) (now : Instant) (q : Queue σ) : Stepped σ :=
  match q.table.cancel now id with
  | none => ([.answered false], q)
  | some t => ([.answered true], { q with
      table := t
      calls := q.calls ++ [.telling (.failed id Failure.cancelled.message) false] })

def report (id : String) (value : Int64) (extra : Option Json) (q : Queue σ) : Stepped σ :=
  match q.table.report id value extra with
  | none => ([.answered false], q)
  | some (t, event) => ([.answered true], { q with
      table := t
      calls := q.calls ++ (event.map (.telling · false)).toList })

def sweep (now : Instant) (q : Queue σ) : Stepped σ :=
  match q.table.expired q.settings.retention now with
  | [] => ([.swept 0], q)
  | ids => ([], { q with calls := q.calls ++ [.evicting ids now] })

/-- The drain is started, the first time only. -/
def start (q : Queue σ) : Queue σ :=
  if q.started then q else { q with started := true, drain := .checking }

/-- The drain is told to stop. Before it is started there is nobody to tell. -/
def shutdown (q : Queue σ) : Queue σ :=
  match q.drain with
  | .off => q
  | _ => { q with stopping := true }

/-- A handler for a type of jobs takes the place of an earlier one. -/
def register (type : String) (handler : Handler σ) (q : Queue σ) : Queue σ :=
  { q with handlers := (type, handler) :: q.handlers }

def proceed (n : Nat) (q : Queue σ) : Option (Stepped σ) :=
  match q.calls[n]? with
  | none => none
  | some (.telling event rings) =>
    let calls := if rings then q.calls.set n .ringing else q.calls.eraseIdx n
    some ([.told event], { q with calls := calls })
  | some .ringing => some ([], ring { q with calls := q.calls.eraseIdx n })
  | some (.evicting ids now) =>
    let (count, t) := q.table.evict q.settings.retention now ids
    some ([.swept count], { q with table := t, calls := q.calls.eraseIdx n })

/-! ## The steps of the drain -/

def drainOn (now : Instant) (q : Queue σ) : Option (Stepped σ) :=
  match q.drain with
  | .off => none
  | .checking => some ([], { q with drain := if q.stopping then .stopped else .acquiring })
  | .acquiring =>
    if q.free = 0 then none
    else some ([], { q with free := q.free - 1, drain := .claiming })
  | .claiming =>
    match q.table.claim now with
    | some (job, t) => some ([], { q with table := t, drain := .telling job })
    | none => some ([], { q with drain := .resting })
  | .telling job => some ([.told (.started job.id)], { q with
      drain := .checking
      tasks := q.tasks ++ [⟨job.id, .looking job⟩] })
  | .resting =>
    some ([], if q.rung then { q with rung := false, drain := .claiming }
      else { q with drain := .waiting })
  | .waiting => none
  | .woken => some ([], { q with drain := .claiming })
  | .stopped => none

/-- The drain stops where it waits for something, and gives its slot back. -/
def drainOff (q : Queue σ) : Option (Stepped σ) :=
  if q.stopping then
    match q.drain with
    | .acquiring => some ([], { q with drain := .stopped })
    | .resting => some ([], { q with drain := .stopped, free := q.free + 1 })
    | .waiting => some ([], { q with drain := .stopped, free := q.free + 1 })
    | .woken => some ([], { q with drain := .stopped, free := q.free + 1 })
    | _ => none
  else none

/-! ## The steps of the tasks -/

/-- The task at the place moves to a stage. -/
def toStage (q : Queue σ) (n : Nat) (job : String) (stage : Stage σ) : Queue σ :=
  { q with tasks := q.tasks.set n ⟨job, stage⟩ }

def advance (n : Nat) (now : Instant) (q : Queue σ) : Option (Stepped σ) :=
  match q.tasks[n]? with
  | none => none
  | some task =>
    let go := fun (q : Queue σ) stage => q.toStage n task.job stage
    match task.stage with
    | .looking job =>
      match q.handler? job.type with
      | none => some ([], go q (.ended (.failed (.noHandler job.type))))
      | some handle =>
        let (work, shared) := handle job q.shared
        some ([.handed job], go { q with shared := shared } (.running work))
    | .running (.finish outcome) => some ([], go q (.ended outcome))
    | .running (.report value extra rest) =>
      match q.table.report task.job value extra with
      | some (t, some event) => some ([], go { q with table := t } (.reporting event rest))
      | some (t, none) => some ([], go { q with table := t } (.running rest))
      | none => some ([], go q (.running rest))
    | .running (.await pass rest) =>
      (pass q.shared).map (fun shared => ([], go { q with shared := shared } (.running rest)))
    | .reporting event rest => some ([.told event], go q (.running rest))
    | .ended outcome =>
      match q.table.finish now task.job outcome with
      | some (t, event) => some ([], go { q with table := t } (.telling event))
      | none => some ([], go q .releasing)
    | .telling event => some ([.told event], go q .releasing)
    | .releasing => some ([], go { q with free := q.free + 1 } .ringing)
    | .ringing => some ([], ring { q with tasks := q.tasks.eraseIdx n })

/-! ## All steps -/

/-- What can happen to a queue. -/
inductive Move (σ : Type) where
  | register (type : String) (handler : Handler σ)
  | enqueue (id : String) (request : JobRequest) (now : Instant)
  | cancel (id : String) (now : Instant)
  | report (id : String) (value : Int64) (extra : Option Json)
  | sweep (now : Instant)
  | start
  | shutdown
  /-- The state that the work shares is changed from outside. -/
  | change (f : σ → σ)
  | proceed (call : Nat)
  | drainOn (now : Instant)
  | drainOff
  | advance (task : Nat) (now : Instant)

/-- A step of the queue, where it can be made. -/
def step (m : Move σ) (q : Queue σ) : Option (Stepped σ) :=
  match m with
  | .register type handler => some ([], q.register type handler)
  | .enqueue id request now => q.enqueue id request now
  | .cancel id now => some (q.cancel id now)
  | .report id value extra => some (q.report id value extra)
  | .sweep now => some (q.sweep now)
  | .start => some ([], q.start)
  | .shutdown => some ([], q.shutdown)
  | .change f => some ([], { q with shared := f q.shared })
  | .proceed n => q.proceed n
  | .drainOn now => q.drainOn now
  | .drainOff => q.drainOff
  | .advance n now => q.advance n now

end Queue

end CodeSurvey
