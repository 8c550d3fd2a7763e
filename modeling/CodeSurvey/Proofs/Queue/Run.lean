-- Runs of a queue. A run keeps every step that was made, with the queue before and
-- after it and what showed of it, so that it can be said when a thing happened and
-- what stood where at that moment.
import CodeSurvey.Proofs.Queue.History

namespace CodeSurvey.Queue

variable {σ : Type} {settings : QueueSettings} {shared : σ}

/-- A step that was made. -/
structure Passage (σ : Type) where
  before : Queue σ
  move : Move σ
  signals : List Signal
  after : Queue σ

/-- The runs of a fresh queue, oldest step first, with the queue at the end. -/
inductive Run (settings : QueueSettings) (shared : σ) : List (Passage σ) → Queue σ → Prop
  | fresh : Run settings shared [] (fresh settings shared)
  | step {run : List (Passage σ)} {q q' : Queue σ} {m : Move σ} {signals : List Signal}
      (past : Run settings shared run q) (made : q.step m = some (signals, q')) :
      Run settings shared (run ++ [⟨q, m, signals, q'⟩]) q'

/-- The history of the table in a run. -/
def history (run : List (Passage σ)) : History :=
  run.flatMap (fun p => (p.before.tableMove? p.move).toList)

@[simp] theorem history_nil : history ([] : List (Passage σ)) = [] := rfl

@[simp] theorem history_append (past later : List (Passage σ)) :
    history (past ++ later) = history past ++ history later := by
  simp [history]

@[simp] theorem history_singleton (p : Passage σ) :
    history [p] = (p.before.tableMove? p.move).toList := by
  simp [history]

namespace Run

variable {run past later : List (Passage σ)} {q : Queue σ}

theorem reached (h : Run settings shared run q) : Reached settings shared (history run) q := by
  induction h with
  | fresh => exact .fresh
  | step past made ih => simpa using ih.step made

/-- A run up to one of its steps is a run, and the step was made at its end. -/
theorem at_step {p : Passage σ} (h : Run settings shared (past ++ p :: later) q) :
    Run settings shared past p.before ∧ p.before.step p.move = some (p.signals, p.after) := by
  generalize hrun : past ++ p :: later = run at h
  induction h generalizing later with
  | fresh => simp at hrun
  | @step run q q' m signals hpast made ih =>
    rcases split_snoc hrun.symm with ⟨rfl, rfl, rfl⟩ | ⟨rest, rfl, rfl⟩
    · exact ⟨hpast, made⟩
    · exact ih rfl

/-- The queue at the end is the one that the last step left. -/
theorem after_last {p : Passage σ} (h : Run settings shared (past ++ [p]) q) : p.after = q := by
  generalize hrun : past ++ [p] = run at h
  cases h with
  | fresh => simp at hrun
  | step hpast made =>
    obtain ⟨-, hp⟩ := List.append_inj' hrun rfl
    rw [List.singleton_inj.1 hp]

end Run

/-! ## Steps one after the other -/

/-- Makes steps one after the other, if each of them can be made. -/
def walk? : List (Move σ) → Queue σ → Option (List (Passage σ) × Queue σ)
  | [], q => some ([], q)
  | m :: rest, q =>
    match q.step m with
    | none => none
    | some (signals, q') => (walk? rest q').map (fun r => (⟨q, m, signals, q'⟩ :: r.1, r.2))

theorem Run.walk {run more : List (Passage σ)} {q q' : Queue σ} {moves : List (Move σ)}
    (h : Run settings shared run q) (walked : walk? moves q = some (more, q')) :
    Run settings shared (run ++ more) q' := by
  induction moves generalizing run more q with
  | nil =>
    simp only [walk?, Option.some.injEq, Prod.mk.injEq] at walked
    obtain ⟨rfl, rfl⟩ := walked
    simpa using h
  | cons m rest ih =>
    unfold walk? at walked
    split at walked
    · cases walked
    · rename_i signals q₁ made
      obtain ⟨⟨tail, last⟩, hrest, heq⟩ := Option.map_eq_some_iff.1 walked
      obtain ⟨rfl, rfl⟩ := Prod.mk.inj heq
      simpa using ih (h.step made) hrest

/-- The steps are those with the moves. -/
theorem moves_of_walk {more : List (Passage σ)} {q q' : Queue σ} {moves : List (Move σ)}
    (walked : walk? moves q = some (more, q')) : more.map (·.move) = moves := by
  induction moves generalizing more q with
  | nil =>
    simp only [walk?, Option.some.injEq, Prod.mk.injEq] at walked
    obtain ⟨rfl, rfl⟩ := walked
    rfl
  | cons m rest ih =>
    unfold walk? at walked
    split at walked
    · cases walked
    · rename_i signals q₁ made
      obtain ⟨⟨tail, last⟩, hrest, heq⟩ := Option.map_eq_some_iff.1 walked
      obtain ⟨rfl, rfl⟩ := Prod.mk.inj heq
      exact congrArg (m :: ·) (ih hrest)

end CodeSurvey.Queue
