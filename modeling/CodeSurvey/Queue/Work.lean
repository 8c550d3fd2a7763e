-- The work on a job, as the queue sees it: reports, waits and an end.
import CodeSurvey.Job.Table

namespace CodeSurvey

/-- What is left to do for a job. The work shares a state with the rest of the program. -/
inductive Work (σ : Type) where
  /-- The work is over. -/
  | finish (outcome : Outcome)
  /-- A report on the job. -/
  | report (value : Int64) (extra : Option Json) (rest : Work σ)
  /-- Waits until it may pass, and changes the state in passing. -/
  | await (pass : σ → Option σ) (rest : Work σ)

/-- The number of steps that are left. -/
def Work.length {σ : Type} : Work σ → Nat
  | finish _ => 1
  | report _ _ rest => rest.length + 1
  | await _ rest => rest.length + 1

/-- How the work ends, once all of its waits pass. -/
def Work.outcome {σ : Type} : Work σ → Outcome
  | finish outcome => outcome
  | report _ _ rest => rest.outcome
  | await _ rest => rest.outcome

/-- A report on a job: how far it is, and what else is known. -/
structure Report where
  value : Int64
  extra : Option Json
deriving Repr

def Work.ofReports {σ : Type} (reports : List Report) (outcome : Outcome) : Work σ :=
  reports.foldr (fun r rest => .report r.value r.extra rest) (.finish outcome)

theorem Work.outcome_ofReports {σ : Type} (reports : List Report) (outcome : Outcome) :
    (Work.ofReports reports outcome : Work σ).outcome = outcome := by
  induction reports with
  | nil => rfl
  | cons r rest ih => exact ih

/-- How work on a job is taken up: what is done to the state at once, and what is left to do. -/
abbrev Handler (σ : Type) := Job → σ → Work σ × σ

end CodeSurvey
