-- A queue left to itself: of the steps that it can make on its own, calls go
-- first, then the drain, then the tasks in the order in which they were
-- started, until there is no step left.
import CodeSurvey.Queue

namespace CodeSurvey

/-- The steps that a task can make until it is gone. Not known before it has looked for the
handler. -/
def Stage.size {σ : Type} : Stage σ → Nat
  | .looking _ => 0
  | .running work => 2 * work.length + 6
  | .reporting _ rest => 2 * rest.length + 7
  | .ended _ => 5
  | .telling _ => 4
  | .releasing => 3
  | .ringing => 2

namespace Queue

variable {σ : Type}

/-! ## The next step -/

/-- The first of the tasks that can go on. -/
def nextTask? (now : Instant) (q : Queue σ) : Option (Move σ) :=
  ((List.range q.tasks.length).find? (fun n => (q.advance n now).isSome)).map (.advance · now)

/-- The step that a queue makes next on its own. -/
def next? (now : Instant) (q : Queue σ) : Option (Move σ) :=
  if !q.calls.isEmpty then some (.proceed 0)
  else if q.drainOff.isSome then some .drainOff
  else if (q.drainOn now).isSome then some (.drainOn now)
  else q.nextTask? now

/-! ## How many steps there can be -/

/-- More than the steps that the queue can make on its own until a task looks for its handler:
each call has at most two of them, and after each ring of the bell and each slot given back the
drain has some. -/
def span (q : Queue σ) : Nat :=
  16 * (2 + 2 * q.calls.length + q.tasks.foldl (fun n t => n + t.stage.size) 0)

/-- The tasks that have to look for their handlers, now or once their jobs are started. -/
def lookups (q : Queue σ) : Nat :=
  q.table.jobs.countP (·.status = .pending) + q.tasks.length + 1

/-- The move lets a task look for its handler. -/
def isLookup (q : Queue σ) : Move σ → Bool
  | .advance n _ =>
    match q.tasks[n]? with
    | some ⟨_, .looking _⟩ => true
    | _ => false
  | _ => false

/-! ## All steps -/

/-- Makes steps until there is none left, and gives what shows of them, newest first. The clock
goes on with each. -/
def settleFrom (looks gas : Nat) (now : Instant) (q : Queue σ) (shown : List Signal) :
    List Signal × Queue σ × Instant :=
  match gas with
  | 0 => (shown, q, now)
  | gas + 1 =>
    match q.next? now with
    | none => (shown, q, now)
    | some move =>
      match q.step move with
      | none => (shown, q, now)
      | some (signals, q') =>
        let shown := signals.reverse ++ shown
        if q.isLookup move then
          match looks with
          | 0 => (shown, q', now.later 1)
          | looks + 1 => settleFrom looks q'.span (now.later 1) q' shown
        else settleFrom looks gas (now.later 1) q' shown
termination_by (looks, gas)

/-- The queue once it has made all steps that it can make on its own. -/
def settle (now : Instant) (q : Queue σ) : List Signal × Queue σ × Instant :=
  let (shown, q, now) := settleFrom q.lookups q.span now q []
  (shown.reverse, q, now)

/-- Makes a step, and then all steps that the queue can make on its own. -/
def perform (move : Move σ) (now : Instant) (q : Queue σ) : List Signal × Queue σ × Instant :=
  match q.step move with
  | none => ([], q, now)
  | some (signals, q) =>
    let (more, q, now) := q.settle (now.later 1)
    (signals ++ more, q, now)

end Queue

end CodeSurvey
