-- What one step of a queue can do. Each kind of step is told by a list of its
-- cases, with the guard of each and what it leaves. The laws of queues are drawn
-- from these lists; no other proof looks into a step.
import CodeSurvey.Queue
import Mathlib.Tactic.Common

namespace CodeSurvey

/-! ## Stages -/

/-- The job that was begun and has no task yet. -/
def Drain.begun? : Drain → Option Job
  | telling job => some job
  | _ => none

namespace Stage

variable {σ : Type}

/-- The job of the task has not ended. -/
def isOpen : Stage σ → Bool
  | looking _ => true
  | running _ => true
  | reporting _ _ => true
  | ended _ => true
  | _ => false

/-- How the job of the task will end, once the task has looked for its handler. -/
def fate? : Stage σ → Option Outcome
  | running work => some work.outcome
  | reporting _ rest => some rest.outcome
  | ended outcome => some outcome
  | _ => none

theorem holdsSlot_of_isOpen {stage : Stage σ} (h : stage.isOpen = true) :
    stage.holdsSlot = true := by
  cases stage <;> simp [isOpen, holdsSlot] at *

theorem isOpen_of_fate? {stage : Stage σ} {outcome : Outcome} (h : stage.fate? = some outcome) :
    stage.isOpen = true := by
  cases stage <;> simp [fate?, isOpen] at *

theorem holdsSlot_of_isExecuting {stage : Stage σ} (h : stage.isExecuting = true) :
    stage.holdsSlot = true := by
  cases stage <;> simp [isExecuting, holdsSlot] at *

end Stage

namespace Queue

variable {σ : Type}

/-! ## One place of a list -/

/-- A list around one of its items: what another item at the place makes of it, and what is left
without the item. -/
theorem split_at_place {α : Type} {xs : List α} {n : Nat} {x : α} (h : xs[n]? = some x) :
    ∃ before after, xs = before ++ x :: after ∧ before.length = n ∧
      (∀ y, xs.set n y = before ++ y :: after) ∧ xs.eraseIdx n = before ++ after := by
  obtain ⟨hn, rfl⟩ := List.getElem?_eq_some_iff.1 h
  refine ⟨xs.take n, xs.drop (n + 1), ?_, ?_, ?_, ?_⟩
  · rw [List.getElem_cons_drop, List.take_append_drop]
  · rw [List.length_take]
    omega
  · intro y
    rw [List.set_eq_take_append_cons_drop, if_pos hn]
  · exact List.eraseIdx_eq_take_drop_succ xs n

theorem mem_place {α : Type} {xs before after : List α} {x y : α}
    (place : xs = before ++ x :: after) : y ∈ xs ↔ y = x ∨ y ∈ before ++ after := by
  rw [place, List.perm_middle.mem_iff, List.mem_cons]

/-! ## Callers -/

/-- What a caller's step does. -/
inductive Asked (q : Queue σ) : Move σ → List Signal → Queue σ → Prop
  | registered {type : String} {handler : Handler σ} :
      Asked q (.register type handler) [] { q with handlers := (type, handler) :: q.handlers }
  | enqueued {id : String} {request : JobRequest} {now : Instant} (new : id ∉ q.issued) :
      Asked q (.enqueue id request now) [] { q with
        table := q.table.push (.ofRequest id now request)
        issued := q.issued ++ [id]
        calls := q.calls ++ [.telling (.enqueued id request.repository) true] }
  | cancelled {id : String} {now : Instant} {t : JobTable} (done : q.table.cancel now id = some t) :
      Asked q (.cancel id now) [.answered true] { q with
        table := t
        calls := q.calls ++ [.telling (.failed id Failure.cancelled.message) false] }
  | notCancelled {id : String} {now : Instant} (refused : q.table.cancel now id = none) :
      Asked q (.cancel id now) [.answered false] q
  | reported {id : String} {value : Int64} {extra : Option Json} {t : JobTable}
      {event : Option JobEvent} (done : q.table.report id value extra = some (t, event)) :
      Asked q (.report id value extra) [.answered true] { q with
        table := t
        calls := q.calls ++ (event.map (.telling · false)).toList }
  | notReported {id : String} {value : Int64} {extra : Option Json}
      (refused : q.table.report id value extra = none) :
      Asked q (.report id value extra) [.answered false] q
  | sweeping {now : Instant} {ids : List String} :
      Asked q (.sweep now) [] { q with calls := q.calls ++ [.evicting ids now] }
  | nothingOld {now : Instant} : Asked q (.sweep now) [.swept 0] q
  | started (first : q.started = false) :
      Asked q .start [] { q with started := true, drain := .checking }
  | startedBefore (again : q.started = true) : Asked q .start [] q
  | stopping : Asked q .shutdown [] { q with stopping := true }
  | nobodyToStop (off : q.drain = .off) : Asked q .shutdown [] q
  | changed {f : σ → σ} : Asked q (.change f) [] { q with shared := f q.shared }

/-- What a ring of the bell does: it wakes the drain, or it is heard later. -/
inductive Rung (q : Queue σ) : Queue σ → Prop
  | wakes (at_ : q.drain = .waiting) : Rung q { q with drain := .woken }
  | later (at_ : q.drain ≠ .waiting) : Rung q { q with rung := true }

theorem rung_ring (q : Queue σ) : Rung q q.ring := by
  unfold ring
  split
  · rename_i hwaiting
    exact .wakes hwaiting
  · rename_i hnot
    exact .later hnot

/-- To hear the bell does not take the drain from a job or a slot. -/
theorem Rung.drain {q q' : Queue σ} (rung : Rung q q') :
    q'.started = q.started ∧ q'.free = q.free ∧ q'.tasks = q.tasks ∧
      q'.drain.begun? = q.drain.begun? ∧ q'.drain.holdsSlot = q.drain.holdsSlot ∧
      (q'.drain = .off ↔ q.drain = .off) := by
  cases rung with
  | wakes at_ => simp [at_, Drain.begun?, Drain.holdsSlot]
  | later => simp

/-- What the rest of a call does, that stands at a place among the calls. -/
inductive Proceeded (q : Queue σ) (before after : List Call) :
    Call → List Signal → Queue σ → Prop
  | told {event : JobEvent} :
      Proceeded q before after (.telling event false) [.told event]
        { q with calls := before ++ after }
  | toldToRing {event : JobEvent} :
      Proceeded q before after (.telling event true) [.told event]
        { q with calls := before ++ .ringing :: after }
  | rings {q' : Queue σ} (rung : Rung { q with calls := before ++ after } q') :
      Proceeded q before after .ringing [] q'
  | evicts {ids : List String} {now : Instant} :
      Proceeded q before after (.evicting ids now)
        [.swept (q.table.evict q.settings.retention now ids).1]
        { q with
          table := (q.table.evict q.settings.retention now ids).2
          calls := before ++ after }

/-! ## The drain -/

/-- What a step of the drain does. -/
inductive Drained (q : Queue σ) (now : Instant) : List Signal → Queue σ → Prop
  | stops (at_ : q.drain = .checking) (asked : q.stopping = true) :
      Drained q now [] { q with drain := .stopped }
  | goesOn (at_ : q.drain = .checking) (unasked : q.stopping = false) :
      Drained q now [] { q with drain := .acquiring }
  | acquires (at_ : q.drain = .acquiring) (some_ : q.free ≠ 0) :
      Drained q now [] { q with free := q.free - 1, drain := .claiming }
  | claims {job : Job} {t : JobTable} (at_ : q.drain = .claiming)
      (claimed : q.table.claim now = some (job, t)) :
      Drained q now [] { q with table := t, drain := .telling job }
  | findsNone (at_ : q.drain = .claiming) (none_ : q.table.claim now = none) :
      Drained q now [] { q with drain := .resting }
  | dispatches {job : Job} (at_ : q.drain = .telling job) :
      Drained q now [.told (.started job.id)] { q with
        drain := .checking
        tasks := q.tasks ++ [⟨job.id, .looking job⟩] }
  | hears (at_ : q.drain = .resting) (rung : q.rung = true) :
      Drained q now [] { q with rung := false, drain := .claiming }
  | waits (at_ : q.drain = .resting) (still : q.rung = false) :
      Drained q now [] { q with drain := .waiting }
  | wakes (at_ : q.drain = .woken) : Drained q now [] { q with drain := .claiming }

/-- What the drain does when it is stopped at a place where it waits. -/
inductive DrainedOff (q : Queue σ) : List Signal → Queue σ → Prop
  | withoutSlot (at_ : q.drain = .acquiring) : DrainedOff q [] { q with drain := .stopped }
  | withSlot (at_ : q.drain = .resting ∨ q.drain = .waiting ∨ q.drain = .woken) :
      DrainedOff q [] { q with drain := .stopped, free := q.free + 1 }

/-! ## Tasks -/

/-- How the handler of a job gets on with its work: from one stage to another, with the table and
the shared state as it leaves them. -/
inductive Worked (q : Queue σ) (id : String) :
    Stage σ → List Signal → JobTable → σ → Stage σ → Prop
  | done {outcome : Outcome} :
      Worked q id (.running (.finish outcome)) [] q.table q.shared (.ended outcome)
  | noted {value : Int64} {extra : Option Json} {rest : Work σ} {t : JobTable} {event : JobEvent}
      (noted : q.table.report id value extra = some (t, some event)) :
      Worked q id (.running (.report value extra rest)) [] t q.shared (.reporting event rest)
  | notedSame {value : Int64} {extra : Option Json} {rest : Work σ} {t : JobTable}
      (noted : q.table.report id value extra = some (t, none)) :
      Worked q id (.running (.report value extra rest)) [] t q.shared (.running rest)
  | notNoted {value : Int64} {extra : Option Json} {rest : Work σ}
      (refused : q.table.report id value extra = none) :
      Worked q id (.running (.report value extra rest)) [] q.table q.shared (.running rest)
  | passed {pass : σ → Option σ} {rest : Work σ} {shared : σ} (passes : pass q.shared = some shared) :
      Worked q id (.running (.await pass rest)) [] q.table shared (.running rest)
  | told {event : JobEvent} {rest : Work σ} :
      Worked q id (.reporting event rest) [.told event] q.table q.shared (.running rest)

/-- Only a handler that is at work gets on, and how its job will end stays as it is. -/
theorem Worked.going {q : Queue σ} {id : String} {stage stage' : Stage σ} {signals : List Signal}
    {t : JobTable} {shared : σ} (works : Worked q id stage signals t shared stage') :
    stage.isExecuting = true ∧
      ∃ outcome, stage.fate? = some outcome ∧ stage'.fate? = some outcome := by
  cases works <;> exact ⟨rfl, _, rfl, rfl⟩

/-- The queue with its task at a place at another stage. -/
def withTask (q : Queue σ) (before after : List (Task σ)) (id : String) (stage : Stage σ) :
    Queue σ :=
  { q with tasks := before ++ ⟨id, stage⟩ :: after }

/-- What a step of a task does, that stands at a place among the tasks. -/
inductive Advanced (q : Queue σ) (before after : List (Task σ)) (id : String) (now : Instant) :
    Stage σ → List Signal → Queue σ → Prop
  | unhandled {job : Job} (none_ : q.handler? job.type = none) :
      Advanced q before after id now (.looking job) []
        (q.withTask before after id (.ended (.failed (.noHandler job.type))))
  | handed {job : Job} {handle : Handler σ} (found : q.handler? job.type = some handle) :
      Advanced q before after id now (.looking job) [.handed job]
        ({ q with shared := (handle job q.shared).2 }.withTask before after id
          (.running (handle job q.shared).1))
  | worked {stage stage' : Stage σ} {signals : List Signal} {t : JobTable} {shared : σ}
      (works : Worked q id stage signals t shared stage') :
      Advanced q before after id now stage signals
        ({ q with table := t, shared := shared }.withTask before after id stage')
  | finished {outcome : Outcome} {t : JobTable} {event : JobEvent}
      (finish : q.table.finish now id outcome = some (t, event)) :
      Advanced q before after id now (.ended outcome) []
        ({ q with table := t }.withTask before after id (.telling event))
  | notFinished {outcome : Outcome} (refused : q.table.finish now id outcome = none) :
      Advanced q before after id now (.ended outcome) [] (q.withTask before after id .releasing)
  | told {event : JobEvent} :
      Advanced q before after id now (.telling event) [.told event]
        (q.withTask before after id .releasing)
  | released :
      Advanced q before after id now .releasing []
        ({ q with free := q.free + 1 }.withTask before after id .ringing)
  | gone {q' : Queue σ} (rung : Rung { q with tasks := before ++ after } q') :
      Advanced q before after id now .ringing [] q'

/-! ## All steps -/

/-- What a step does. -/
inductive Moved (q : Queue σ) : Move σ → List Signal → Queue σ → Prop
  | asked {m : Move σ} {signals : List Signal} {q' : Queue σ} (asked : Asked q m signals q') :
      Moved q m signals q'
  | proceeded {before after : List Call} {call : Call} {signals : List Signal} {q' : Queue σ}
      (place : q.calls = before ++ call :: after)
      (proceeded : Proceeded q before after call signals q') :
      Moved q (.proceed before.length) signals q'
  | drained {now : Instant} {signals : List Signal} {q' : Queue σ}
      (drained : Drained q now signals q') : Moved q (.drainOn now) signals q'
  | drainedOff {signals : List Signal} {q' : Queue σ} (stopping : q.stopping = true)
      (drained : DrainedOff q signals q') : Moved q .drainOff signals q'
  | advanced {before after : List (Task σ)} {id : String} {stage : Stage σ} {now : Instant}
      {signals : List Signal} {q' : Queue σ} (place : q.tasks = before ++ ⟨id, stage⟩ :: after)
      (advanced : Advanced q before after id now stage signals q') :
      Moved q (.advance before.length now) signals q'

theorem proceed_moved {q q' : Queue σ} {n : Nat} {signals : List Signal}
    (made : q.proceed n = some (signals, q')) : Moved q (.proceed n) signals q' := by
  unfold proceed at made
  cases hcall : q.calls[n]? with
  | none => simp [hcall] at made
  | some call =>
    obtain ⟨before, after, hsplit, rfl, hset, herase⟩ := split_at_place hcall
    refine .proceeded hsplit ?_
    cases call with
    | telling event rings =>
      simp only [hcall, hset, herase, Option.some.injEq, Prod.mk.injEq] at made
      obtain ⟨rfl, rfl⟩ := made
      cases rings with
      | false => exact .told
      | true => exact .toldToRing
    | ringing =>
      simp only [hcall, herase, Option.some.injEq, Prod.mk.injEq] at made
      obtain ⟨rfl, rfl⟩ := made
      exact .rings (rung_ring _)
    | evicting ids now =>
      simp only [hcall, herase, Option.some.injEq, Prod.mk.injEq] at made
      obtain ⟨rfl, rfl⟩ := made
      exact .evicts

theorem drainOn_moved {q q' : Queue σ} {now : Instant} {signals : List Signal}
    (made : q.drainOn now = some (signals, q')) : Drained q now signals q' := by
  unfold drainOn at made
  cases hdrain : q.drain with
  | checking =>
    simp only [hdrain, Option.some.injEq, Prod.mk.injEq] at made
    obtain ⟨rfl, rfl⟩ := made
    split
    · rename_i hstop
      exact .stops hdrain hstop
    · rename_i hgoing
      exact .goesOn hdrain (by simpa using hgoing)
  | acquiring =>
    simp only [hdrain] at made
    split at made
    · cases made
    · rename_i hfree
      simp only [Option.some.injEq, Prod.mk.injEq] at made
      obtain ⟨rfl, rfl⟩ := made
      exact .acquires hdrain hfree
  | claiming =>
    simp only [hdrain] at made
    split at made
    all_goals
      rename_i hclaim
      simp only [Option.some.injEq, Prod.mk.injEq] at made
      obtain ⟨rfl, rfl⟩ := made
    · exact .claims hdrain hclaim
    · exact .findsNone hdrain hclaim
  | telling job =>
    simp only [hdrain, Option.some.injEq, Prod.mk.injEq] at made
    obtain ⟨rfl, rfl⟩ := made
    exact .dispatches hdrain
  | resting =>
    simp only [hdrain, Option.some.injEq, Prod.mk.injEq] at made
    obtain ⟨rfl, rfl⟩ := made
    split
    · rename_i hrung
      exact .hears hdrain hrung
    · rename_i hstill
      exact .waits hdrain (by simpa using hstill)
  | woken =>
    simp only [hdrain, Option.some.injEq, Prod.mk.injEq] at made
    obtain ⟨rfl, rfl⟩ := made
    exact .wakes hdrain
  | _ => simp [hdrain] at made

theorem drainOff_moved {q q' : Queue σ} {signals : List Signal}
    (made : q.drainOff = some (signals, q')) : Moved q .drainOff signals q' := by
  unfold drainOff at made
  split at made
  · rename_i hstop
    refine .drainedOff hstop ?_
    cases hdrain : q.drain with
    | acquiring =>
      simp only [hdrain, Option.some.injEq, Prod.mk.injEq] at made
      obtain ⟨rfl, rfl⟩ := made
      exact .withoutSlot hdrain
    | resting =>
      simp only [hdrain, Option.some.injEq, Prod.mk.injEq] at made
      obtain ⟨rfl, rfl⟩ := made
      exact .withSlot (.inl hdrain)
    | waiting =>
      simp only [hdrain, Option.some.injEq, Prod.mk.injEq] at made
      obtain ⟨rfl, rfl⟩ := made
      exact .withSlot (.inr (.inl hdrain))
    | woken =>
      simp only [hdrain, Option.some.injEq, Prod.mk.injEq] at made
      obtain ⟨rfl, rfl⟩ := made
      exact .withSlot (.inr (.inr hdrain))
    | _ => simp [hdrain] at made
  · cases made

theorem advance_moved {q q' : Queue σ} {n : Nat} {now : Instant} {signals : List Signal}
    (made : q.advance n now = some (signals, q')) : Moved q (.advance n now) signals q' := by
  unfold advance at made
  cases htask : q.tasks[n]? with
  | none => simp [htask] at made
  | some task =>
    obtain ⟨id, stage⟩ := task
    obtain ⟨before, after, hsplit, rfl, hset, herase⟩ := split_at_place htask
    refine .advanced hsplit ?_
    cases stage with
    | looking job =>
      simp only [htask, toStage, hset] at made
      split at made
      all_goals
        rename_i hhandler
        simp only [Option.some.injEq, Prod.mk.injEq] at made
        obtain ⟨rfl, rfl⟩ := made
      · exact .unhandled hhandler
      · exact .handed hhandler
    | running work =>
      cases work with
      | finish outcome =>
        simp only [htask, toStage, hset, Option.some.injEq, Prod.mk.injEq] at made
        obtain ⟨rfl, rfl⟩ := made
        exact .worked .done
      | report value extra rest =>
        simp only [htask, toStage, hset] at made
        split at made
        all_goals
          rename_i hreport
          simp only [Option.some.injEq, Prod.mk.injEq] at made
          obtain ⟨rfl, rfl⟩ := made
        · exact .worked (.noted hreport)
        · exact .worked (.notedSame hreport)
        · exact .worked (.notNoted hreport)
      | await pass rest =>
        simp only [htask, toStage, hset, Option.map_eq_some_iff, Prod.mk.injEq] at made
        obtain ⟨shared, hpass, rfl, rfl⟩ := made
        exact .worked (.passed hpass)
    | reporting event rest =>
      simp only [htask, toStage, hset, Option.some.injEq, Prod.mk.injEq] at made
      obtain ⟨rfl, rfl⟩ := made
      exact .worked .told
    | ended outcome =>
      simp only [htask, toStage, hset] at made
      split at made
      all_goals
        rename_i hfinish
        simp only [Option.some.injEq, Prod.mk.injEq] at made
        obtain ⟨rfl, rfl⟩ := made
      · exact .finished hfinish
      · exact .notFinished hfinish
    | telling event =>
      simp only [htask, toStage, hset, Option.some.injEq, Prod.mk.injEq] at made
      obtain ⟨rfl, rfl⟩ := made
      exact .told
    | releasing =>
      simp only [htask, toStage, hset, Option.some.injEq, Prod.mk.injEq] at made
      obtain ⟨rfl, rfl⟩ := made
      exact .released
    | ringing =>
      simp only [htask, herase, Option.some.injEq, Prod.mk.injEq] at made
      obtain ⟨rfl, rfl⟩ := made
      exact .gone (rung_ring _)

/-- A step does one of the things that are listed. -/
theorem step_moved {q q' : Queue σ} {m : Move σ} {signals : List Signal}
    (made : q.step m = some (signals, q')) : Moved q m signals q' := by
  cases m with
  | enqueue id request now =>
    simp only [step, enqueue] at made
    split at made
    · cases made
    · rename_i hnew
      simp only [Option.some.injEq, Prod.mk.injEq] at made
      obtain ⟨rfl, rfl⟩ := made
      exact .asked (.enqueued hnew)
  | cancel id now =>
    simp only [step, cancel, Option.some.injEq] at made
    split at made
    all_goals
      rename_i hcancel
      obtain ⟨rfl, rfl⟩ := Prod.mk.inj made
    · exact .asked (.notCancelled hcancel)
    · exact .asked (.cancelled hcancel)
  | report id value extra =>
    simp only [step, report, Option.some.injEq] at made
    split at made
    all_goals
      rename_i hreport
      obtain ⟨rfl, rfl⟩ := Prod.mk.inj made
    · exact .asked (.notReported hreport)
    · exact .asked (.reported hreport)
  | sweep now =>
    simp only [step, sweep, Option.some.injEq] at made
    split at made
    all_goals obtain ⟨rfl, rfl⟩ := Prod.mk.inj made
    · exact .asked .nothingOld
    · exact .asked .sweeping
  | start =>
    simp only [step, start, Option.some.injEq, Prod.mk.injEq] at made
    obtain ⟨rfl, rfl⟩ := made
    cases hstarted : q.started with
    | false => exact .asked (.started hstarted)
    | true => exact .asked (.startedBefore hstarted)
  | shutdown =>
    simp only [step, shutdown, Option.some.injEq, Prod.mk.injEq] at made
    obtain ⟨rfl, rfl⟩ := made
    split
    · rename_i hoff
      exact .asked (.nobodyToStop hoff)
    · exact .asked .stopping
  | proceed n => exact proceed_moved made
  | drainOn now => exact .drained (drainOn_moved made)
  | drainOff => exact drainOff_moved made
  | advance n now => exact advance_moved made
  | register type handler =>
    simp only [step, register, Option.some.injEq, Prod.mk.injEq] at made
    obtain ⟨rfl, rfl⟩ := made
    exact .asked .registered
  | change f =>
    simp only [step, Option.some.injEq, Prod.mk.injEq] at made
    obtain ⟨rfl, rfl⟩ := made
    exact .asked .changed

end Queue

end CodeSurvey
