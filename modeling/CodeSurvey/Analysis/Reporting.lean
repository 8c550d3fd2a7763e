-- Work that reports on its way: beside its answer or failure and the state that
-- it leaves, it gives the reports that it made, in order.
import CodeSurvey.Queue.Work
import CodeSurvey.Store.Operation

namespace CodeSurvey

/-- How a piece of work went. -/
structure Course (σ α : Type) where
  result : Except Failure α
  reports : List Report
  state : σ

/-- Work on a state that makes reports. -/
abbrev Reporting (σ α : Type) := σ → Course σ α

namespace Reporting

variable {σ α β : Type}

def answer (a : α) : Reporting σ α := fun s => ⟨.ok a, [], s⟩

def fail (f : Failure) : Reporting σ α := fun s => ⟨.error f, [], s⟩

def run (c : Command σ α) : Reporting σ α := fun s =>
  let (r, s) := c s
  ⟨r, [], s⟩

def report (value : Int64) (extra : Option Json) : Reporting σ Unit := fun s =>
  ⟨.ok (), [⟨value, extra⟩], s⟩

/-- One piece of work after another; a failure ends both. -/
def andThen (x : Reporting σ α) (f : α → Reporting σ β) : Reporting σ β := fun s =>
  let first := x s
  match first.result with
  | .ok a =>
    let second := f a first.state
    ⟨second.result, first.reports ++ second.reports, second.state⟩
  | .error e => ⟨.error e, first.reports, first.state⟩

instance : Monad (Reporting σ) where
  pure := answer
  bind := andThen

end Reporting

end CodeSurvey
