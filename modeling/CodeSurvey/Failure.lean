-- What can go wrong in a run, by cause, and how each failure reads.
import CodeSurvey.Store.Relational.Issue
import CodeSurvey.Text.Quoted

namespace CodeSurvey

/-- The ways in which an operation can fail. -/
inductive Failure where
  | acquisition (reason : String)
  | unsafeEntry (name : String)
  | discovery (root reason : String)
  | read (path reason : String)
  | noHandler (jobType : String)
  | unknownJob (id : String)
  | cancelled
  | invalidPayload (reason : String)
  | storage (reason : String)
  | task (reason : String)
  | io (reason : String)
  | database (issue : Relational.Issue)
  | json (reason : String)
  | git (reason : String)
  | archive (reason : String)
deriving DecidableEq, Repr

namespace Failure

def message : Failure → String
  | acquisition reason => "Acquisition error: " ++ reason
  | unsafeEntry name => "Unsafe archive entry: " ++ name
  | discovery root reason => "Discovery error at " ++ root ++ ": " ++ reason
  | read path reason => "Read error at " ++ path ++ ": " ++ reason
  | noHandler jobType => "No handler registered for job type " ++ Text.quoted jobType
  | unknownJob id => "Unknown job: " ++ id
  | cancelled => "Job cancelled before it started"
  | invalidPayload reason => "Invalid job payload: " ++ reason
  | storage reason => "Storage error: " ++ reason
  | task reason => "Task error: " ++ reason
  | io reason => "IO error: " ++ reason
  | database issue => "SQLite error: " ++ issue.message
  | json reason => "JSON error: " ++ reason
  | git reason => "Git error: " ++ reason
  | archive reason => "Archive error: " ++ reason

/-- No file with the id is stored. -/
def unknownFile (id : Int64) : Failure := storage ("unknown file " ++ toString id.toInt)

/-- No repository with the id is stored. -/
def unknownRepository (id : String) : Failure := storage ("unknown repository " ++ id)

/-- A file with the path is stored already. -/
def alreadyStored (path repository : String) : Failure :=
  storage ("file " ++ path ++ " already stored for repository " ++ repository)

/-- An edge does not start at the file that it is written for. -/
def foreignEdge (specifier : String) (file : Int64) (repository : String) : Failure :=
  storage ("edge " ++ Text.quoted specifier ++ " does not originate from file " ++
    toString file.toInt ++ " in repository " ++ repository)

end Failure

end CodeSurvey
