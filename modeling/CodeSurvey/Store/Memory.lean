-- A store in memory. All ids come from one counter, and lists keep the order
-- in which records were stored.
import CodeSurvey.Store.Operation

namespace CodeSurvey

/-- What a store in memory holds. -/
structure MemoryStore where
  /-- The id that was given out last. -/
  lastId : Int64
  repositories : List Repository
  files : List StoredFile
  facts : List StoredFact
  edges : List StoredEdge
deriving DecidableEq, Repr

namespace MemoryStore

def empty : MemoryStore := ⟨0, [], [], [], []⟩

def knows (s : MemoryStore) (id : String) : Bool := s.repositories.any (fun r => r.id == id)

/-- A file of the repository is stored at the path. -/
def holds (s : MemoryStore) (repository path : String) : Bool :=
  s.files.any (fun f => f.repository == repository && f.path == path)

/-! ## Files -/

/-- What is wrong with files that are to be stored, behind the ones before them. -/
def checkFiles (s : MemoryStore) (before : List NewFile) : List NewFile → Except Failure Unit
  | [] => .ok ()
  | f :: rest =>
    if !s.knows f.repository then .error (.unknownRepository f.repository)
    else if s.holds f.repository f.path ||
        before.any (fun g => g.repository == f.repository && g.path == f.path) then
      .error (.alreadyStored f.path f.repository)
    else checkFiles s (f :: before) rest

/-- One more file, with the next id. -/
def addFile (s : MemoryStore) (f : NewFile) : StoredFile × MemoryStore :=
  let stored : StoredFile := ⟨f, s.lastId + 1⟩
  (stored, { s with lastId := s.lastId + 1, files := s.files ++ [stored] })

def addFiles (s : MemoryStore) : List NewFile → List StoredFile × MemoryStore
  | [] => ([], s)
  | f :: rest =>
    let (stored, s) := s.addFile f
    let (others, s) := s.addFiles rest
    (stored :: others, s)

/-- Files are stored when all of them can be. -/
def insertFiles (files : List NewFile) : Command MemoryStore (List StoredFile) := fun s =>
  match s.checkFiles [] files with
  | .error e => (.error e, s)
  | .ok () =>
    let (stored, s) := s.addFiles files
    (.ok stored, s)

/-- An edge that loses its target when that is among the files. -/
def detach (files : List Int64) (e : StoredEdge) : StoredEdge :=
  { e with targetFile := e.targetFile.filter (fun t => !files.contains t) }

/-- The files are removed with their facts and edges, and edges to them lose their target. -/
def removeFiles (s : MemoryStore) (files : List Int64) : MemoryStore :=
  { s with
    files := s.files.filter (fun f => !files.contains f.id)
    facts := s.facts.filter (fun f => !files.contains f.file)
    edges := (s.edges.filter (fun e => !files.contains e.sourceFile)).map (detach files) }

def filesOf (s : MemoryStore) (repository : String) : List StoredFile :=
  s.files.filter (fun f => f.repository == repository)

/-- All files of a repository are removed. -/
def clearFiles (repository : String) : Command MemoryStore Nat := fun s =>
  let ids := (s.filesOf repository).map (·.id)
  (.ok ids.length, s.removeFiles ids)

/-! ## Facts and edges -/

/-- One more fact of a file, with the next id. -/
def addFact (file : Int64) (repository : String) (s : MemoryStore) (f : Fact) : MemoryStore :=
  { s with
    lastId := s.lastId + 1
    facts := s.facts ++ [⟨s.lastId + 1, file, repository, f⟩] }

/-- One more edge, with the next id. -/
def addEdge (s : MemoryStore) (e : Edge) : MemoryStore :=
  { s with lastId := s.lastId + 1, edges := s.edges ++ [⟨e, s.lastId + 1⟩] }

/-- The store without the facts and edges of a file. -/
def withoutFactsOf (s : MemoryStore) (file : Int64) : MemoryStore :=
  { s with
    facts := s.facts.filter (fun f => f.file != file)
    edges := s.edges.filter (fun e => e.sourceFile != file) }

/-- The facts and edges of a stored file are replaced. -/
def replaceFacts (file : Int64) (repository : String) (facts : List Fact) (edges : List Edge) :
    Command MemoryStore Unit := fun s =>
  match checkEdges file repository edges with
  | .error e => (.error e, s)
  | .ok () =>
    if s.files.any (fun f => f.id == file) then
      (.ok (), edges.foldl addEdge (facts.foldl (addFact file repository) (s.withoutFactsOf file)))
    else (.error (.unknownFile file), s)

/-! ## Repositories -/

def repositoryOf (s : MemoryStore) (id : String) : Option Repository :=
  s.repositories.find? (fun r => r.id == id)

/-- A repository is updated where it stands, or added behind the others. -/
def updateRepository (id : String) (u : RepositoryUpdate) : Command MemoryStore Repository :=
  fun s =>
    match s.repositoryOf id with
    | some r =>
      let r := r.apply u
      (.ok r, { s with repositories := s.repositories.map (fun o => if o.id == id then r else o) })
    | none =>
      let r := (Repository.fresh id).apply u
      (.ok r, { s with repositories := s.repositories ++ [r] })

/-- A repository is removed with its files, and with every edge that is stored for it. -/
def deleteRepository (id : String) : Command MemoryStore Bool := fun s =>
  if s.knows id then
    let ids := (s.filesOf id).map (·.id)
    let s := s.removeFiles ids
    (.ok true, { s with
      repositories := s.repositories.filter (fun r => r.id != id)
      edges := s.edges.filter (fun e => e.repository != id) })
  else (.ok false, s)

instance : Storage MemoryStore where
  insertFiles := insertFiles
  files repository := .ask (fun s => .ok (s.filesOf repository))
  clearFiles := clearFiles
  replaceFacts := replaceFacts
  factsOfFile file := .ask (fun s => .ok (s.facts.filter (fun f => f.file == file)))
  facts repository := .ask (fun s => .ok (s.facts.filter (fun f => f.repository == repository)))
  edges repository := .ask (fun s => .ok (s.edges.filter (fun e => e.repository == repository)))
  updateRepository := updateRepository
  repository id := .ask (fun s => .ok (s.repositoryOf id))
  deleteRepository := deleteRepository

end MemoryStore

end CodeSurvey
