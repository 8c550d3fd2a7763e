-- The table of jobs. Each change of it happens at once: it looks at the jobs as
-- they are, and either changes one of them or refuses.
import CodeSurvey.Job

namespace CodeSurvey

/-! ## How the work on a job ends -/

/-- How the work on a job ended. A panic may carry a text. -/
inductive Outcome where
  | succeeded
  | failed (failure : Failure)
  | panicked (text : Option String)
deriving DecidableEq, Repr

/-- The failure that an outcome stands for. -/
def Outcome.failure? : Outcome → Option Failure
  | succeeded => none
  | failed f => some f
  | panicked text => some (.task (text.getD "handler panicked"))

/-! ## One job -/

namespace Job

/-- The largest progress of a job that has not completed. -/
def topProgress : UInt8 := 99

/-- A value as progress: nothing below zero, and nothing above the largest. -/
def clampedProgress (value : Int64) : UInt8 :=
  if value < 0 then 0
  else if value > 99 then topProgress
  else UInt8.ofNat value.toInt.toNat

/-- The job when work on it starts. -/
def begun (now : Instant) (j : Job) : Job :=
  { j with status := .processing, startedAt := some now, progress := 0 }

/-- The job when it is called off. -/
def withdrawn (now : Instant) (j : Job) : Job :=
  { j with status := .failed, error := some Failure.cancelled.message, completedAt := some now }

/-- The job with a report on it: progress never goes back, and what else is known joins the
data. -/
def reported (value : Int64) (extra : Option Json) (j : Job) : Job :=
  { j with
    progress := max (clampedProgress value) j.progress
    data := match extra with
      | some e => j.data.merge e
      | none => j.data }

/-- The job when the work on it has ended. -/
def ended (now : Instant) (o : Outcome) (j : Job) : Job :=
  match o.failure? with
  | none => { j with completedAt := some now, status := .completed, progress := 100 }
  | some f => { j with completedAt := some now, status := .failed, error := some f.message }

/-- What is told when the work on a job has ended. -/
def endEvent (id : String) (o : Outcome) : JobEvent :=
  match o.failure? with
  | none => .completed id
  | some f => .failed id f.message

/-- The job ended longer ago than jobs are kept. -/
def isExpired (keep : Duration) (now : Instant) (j : Job) : Bool :=
  j.status.isTerminal && j.completedAt.any (fun t => now.nanos - t.nanos > keep.nanos)

end Job

/-! ## The table -/

/-- The jobs, in the order in which they were asked for. -/
structure JobTable where
  jobs : List Job
deriving Repr

namespace JobTable

def empty : JobTable := ⟨[]⟩

def find? (t : JobTable) (id : String) : Option Job := t.jobs.find? (·.id = id)

def ofRepository (t : JobTable) (repository : String) : List Job :=
  t.jobs.filter (·.repository = repository)

/-- The number of jobs that are worked on. -/
def processing (t : JobTable) : Nat := t.jobs.countP (·.status = .processing)

/-- A new job goes to the end. -/
def push (t : JobTable) (j : Job) : JobTable := ⟨t.jobs ++ [j]⟩

/-- The job takes the place of the one with its id. -/
def put (t : JobTable) (j : Job) : JobTable := ⟨t.jobs.map (fun k => if k.id = j.id then j else k)⟩

/-- The job with the id, if it has the status. -/
def findIn? (t : JobTable) (status : JobStatus) (id : String) : Option Job :=
  (t.find? id).filter (·.status = status)

/-- Calls a job off that has not started. -/
def cancel (t : JobTable) (now : Instant) (id : String) : Option JobTable :=
  (t.findIn? .pending id).map (fun j => t.put (j.withdrawn now))

/-- Notes a report on a job that is worked on. There is an event when the progress changed. -/
def report (t : JobTable) (id : String) (value : Int64) (extra : Option Json) :
    Option (JobTable × Option JobEvent) :=
  (t.findIn? .processing id).map (fun j =>
    let k := j.reported value extra
    (t.put k, if k.progress = j.progress then none else some (.progress id k.progress)))

/-- Work on the repository is going on. -/
def isBusy (t : JobTable) (repository : String) : Bool :=
  t.jobs.any (fun j => j.status = .processing && j.repository = repository)

/-- The job that is next: the first that waits for work and whose repository is not busy. -/
def next? (t : JobTable) : Option Job :=
  t.jobs.find? (fun j => j.status = .pending && !t.isBusy j.repository)

def claim (t : JobTable) (now : Instant) : Option (Job × JobTable) :=
  t.next?.map (fun j => (j.begun now, t.put (j.begun now)))

/-- Ends a job that is worked on. -/
def finish (t : JobTable) (now : Instant) (id : String) (o : Outcome) :
    Option (JobTable × JobEvent) :=
  (t.findIn? .processing id).map (fun j => (t.put (j.ended now o), Job.endEvent id o))

/-! ## Old jobs -/

/-- The longest time that jobs can be kept: the milliseconds of it fill a signed 64-bit word. -/
def longestKeep : Duration := .ofMillis (Text.wordSize 63 - 1)

/-- The jobs that are kept no longer. Where the time is too long, all jobs are kept. -/
def expired (t : JobTable) (keep : Duration) (now : Instant) : List String :=
  if keep.nanos ≤ longestKeep.nanos then (t.jobs.filter (·.isExpired keep now)).map (·.id)
  else []

/-- The table without the job with the id, if that is kept no longer. -/
def evictOne (keep : Duration) (now : Instant) (acc : Nat × JobTable) (id : String) :
    Nat × JobTable :=
  if (acc.2.find? id).any (·.isExpired keep now) then
    (acc.1 + 1, ⟨acc.2.jobs.filter (·.id ≠ id)⟩)
  else acc

/-- The table without those of the jobs that are kept no longer, and how many these are. -/
def evict (t : JobTable) (keep : Duration) (now : Instant) (ids : List String) : Nat × JobTable :=
  ids.foldl (evictOne keep now) (0, t)

end JobTable

end CodeSurvey
