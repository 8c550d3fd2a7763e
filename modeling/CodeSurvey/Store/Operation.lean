-- What a store can do, whatever it keeps its records in. An operation that
-- fails gives the state that it leaves, too.
import CodeSurvey.Failure
import CodeSurvey.Repository
import CodeSurvey.Store.Record

namespace CodeSurvey

/-- An operation on a state, which answers or fails. -/
abbrev Command (σ α : Type) := σ → Except Failure α × σ

namespace Command

/-- The answer, with the state as it is. -/
def answer {σ α : Type} (a : α) : Command σ α := fun s => (.ok a, s)

/-- A failure, with the state as it is. -/
def fail {σ α : Type} (f : Failure) : Command σ α := fun s => (.error f, s)

def ask {σ α : Type} (f : σ → Except Failure α) : Command σ α := fun s => (f s, s)

/-- One operation after another; a failure ends both. -/
def andThen {σ α β : Type} (x : Command σ α) (f : α → Command σ β) : Command σ β := fun s =>
  match x s with
  | (.ok a, s) => f a s
  | (.error e, s) => (.error e, s)

/-- Both operations, the first for its effect. -/
def followedBy {σ α : Type} (x : Command σ Unit) (y : Command σ α) : Command σ α :=
  x.andThen (fun _ => y)

/-- The operation with each item, in order, up to the first that fails. -/
def each {σ α : Type} (f : α → Command σ Unit) : List α → Command σ Unit
  | [] => answer ()
  | a :: r => (f a).followedBy (each f r)

/-- The answers of the operation with each item, in order, up to the first that fails. -/
def collect {σ α β : Type} (f : α → Command σ β) : List α → Command σ (List β)
  | [] => answer []
  | a :: r => (f a).andThen (fun b => (collect f r).andThen (fun bs => answer (b :: bs)))

end Command

/-- A store of repositories, their files, and the facts and edges of those. -/
class Storage (σ : Type) where
  /-- Files are stored, all or none. Their repositories must be known. -/
  insertFiles : List NewFile → Command σ (List StoredFile)
  files : String → Command σ (List StoredFile)
  /-- All files of a repository are removed, with their facts and edges. The number of files is
  given. -/
  clearFiles : String → Command σ Nat
  /-- The facts and edges of a file are replaced, all or none. The file is named by its id and
  repository. -/
  replaceFacts : Int64 → String → List Fact → List Edge → Command σ Unit
  factsOfFile : Int64 → Command σ (List StoredFact)
  facts : String → Command σ (List StoredFact)
  edges : String → Command σ (List StoredEdge)
  /-- A repository is updated, and made when it is not known. -/
  updateRepository : String → RepositoryUpdate → Command σ Repository
  repository : String → Command σ (Option Repository)
  /-- A repository is removed with all that is stored for it; false when it is not known. -/
  deleteRepository : String → Command σ Bool

/-- Every edge starts at the file, in its repository; else the first that does not is
complained of. -/
def checkEdges (file : Int64) (repository : String) (edges : List Edge) : Except Failure Unit :=
  match edges.find? (fun e => e.sourceFile != file || e.repository != repository) with
  | some e => .error (.foreignEdge e.specifier file repository)
  | none => .ok ()

end CodeSurvey
