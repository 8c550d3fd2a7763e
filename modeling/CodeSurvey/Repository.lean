-- Repositories: how their analysis stands, what is known of them, and how a
-- partial update changes that.
import CodeSurvey.Facts
import CodeSurvey.Language

namespace CodeSurvey

/-! ## Status -/

/-- How the analysis of a repository stands. -/
inductive RepositoryStatus where
  | pending
  | processing
  | completed
  | failed
deriving DecidableEq, Repr

def RepositoryStatus.named : List (String × RepositoryStatus) :=
  [("pending", .pending), ("processing", .processing), ("completed", .completed),
    ("failed", .failed)]

def RepositoryStatus.name : RepositoryStatus → String
  | .pending => "pending"
  | .processing => "processing"
  | .completed => "completed"
  | .failed => "failed"

def RepositoryStatus.ofName (name : String) : Except String RepositoryStatus :=
  findNamed "repository status" RepositoryStatus.named name

/-! ## Records -/

/-- What is known of a repository. -/
structure Repository where
  id : String
  status : RepositoryStatus
  storagePath : Option String
  primaryLanguage : Option String
  totalFiles : UInt64
  totalSize : UInt64
  languages : Breakdown
  errorMessage : Option String
deriving DecidableEq, Repr

/-- A repository of which nothing is known yet. -/
def Repository.fresh (id : String) : Repository :=
  ⟨id, .pending, none, none, 0, 0, [], none⟩

/-- New values for some of what is known of a repository. -/
structure RepositoryUpdate where
  status : Option RepositoryStatus
  storagePath : Option String
  primaryLanguage : Option String
  totalFiles : Option UInt64
  totalSize : Option UInt64
  languages : Option Breakdown
  errorMessage : Option String
deriving DecidableEq, Repr

def RepositoryUpdate.empty : RepositoryUpdate := ⟨none, none, none, none, none, none, none⟩

def RepositoryUpdate.toStatus (s : RepositoryStatus) : RepositoryUpdate :=
  { RepositoryUpdate.empty with status := some s }

/-- The update to failure with a message. -/
def RepositoryUpdate.failure (message : String) : RepositoryUpdate :=
  { RepositoryUpdate.empty with status := some .failed, errorMessage := some message }

/-- The message that stays when a status is set: the one of an earlier failure stays only where
the new status is a failure or none. -/
def keptMessage (old : Option String) : Option RepositoryStatus → Option String
  | none => old
  | some .failed => old
  | some _ => none

/-- The record with the new values of an update. -/
def Repository.apply (r : Repository) (u : RepositoryUpdate) : Repository where
  id := r.id
  status := u.status.getD r.status
  storagePath := u.storagePath <|> r.storagePath
  primaryLanguage := u.primaryLanguage <|> r.primaryLanguage
  totalFiles := u.totalFiles.getD r.totalFiles
  totalSize := u.totalSize.getD r.totalSize
  languages := u.languages.getD r.languages
  errorMessage := u.errorMessage <|> keptMessage r.errorMessage u.status

end CodeSurvey
