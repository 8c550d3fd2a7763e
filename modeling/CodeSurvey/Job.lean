-- Jobs: what is asked for, how it stands, and what is told of it.
import CodeSurvey.Failure
import CodeSurvey.Json.Basic
import CodeSurvey.Time

namespace CodeSurvey

/-! ## Jobs -/

/-- How a job stands. -/
inductive JobStatus where
  | pending
  | processing
  | completed
  | failed
deriving DecidableEq, Repr

def JobStatus.named : List (String × JobStatus) :=
  [("pending", .pending), ("processing", .processing), ("completed", .completed),
    ("failed", .failed)]

def JobStatus.name : JobStatus → String
  | .pending => "pending"
  | .processing => "processing"
  | .completed => "completed"
  | .failed => "failed"

def JobStatus.isTerminal : JobStatus → Bool
  | .completed => true
  | .failed => true
  | _ => false

/-- What is asked for: a type of work on a repository, with data for it. -/
structure JobRequest where
  type : String
  repository : String
  payload : Json
deriving Repr

/-- A job at some moment. -/
structure Job where
  id : String
  type : String
  repository : String
  status : JobStatus
  progress : UInt8
  data : Json
  error : Option String
  createdAt : Instant
  startedAt : Option Instant
  completedAt : Option Instant
deriving Repr, BEq

/-- A job that was just asked for. -/
def Job.ofRequest (id : String) (now : Instant) (r : JobRequest) : Job where
  id := id
  type := r.type
  repository := r.repository
  status := .pending
  progress := 0
  data := r.payload
  error := none
  createdAt := now
  startedAt := none
  completedAt := none

/-! ## Events -/

/-- What is told of a job. -/
inductive JobEvent where
  | enqueued (job repository : String)
  | started (job : String)
  | progress (job : String) (value : UInt8)
  | completed (job : String)
  | failed (job error : String)
deriving DecidableEq, Repr

def JobEvent.job : JobEvent → String
  | enqueued job _ => job
  | started job => job
  | progress job _ => job
  | completed job => job
  | failed job _ => job

def JobEvent.isTerminal : JobEvent → Bool
  | completed _ => true
  | failed _ _ => true
  | _ => false

end CodeSurvey
