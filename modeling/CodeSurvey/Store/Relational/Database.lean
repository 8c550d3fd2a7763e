-- The database: its tables, and what their keys allow. Statements change it
-- one by one; a transaction keeps the changes of all of its statements or of
-- none, and so the ids that were given out.
import CodeSurvey.Store.Operation
import CodeSurvey.Store.Relational.Row

namespace CodeSurvey.Relational

/-- Rows whose ids are counted up, so that none is used twice. -/
structure Table (ρ : Type) where
  rows : List ρ
  lastId : Int64
deriving DecidableEq, Repr

def Table.empty {ρ : Type} : Table ρ := ⟨[], 0⟩

/-- A database. -/
structure Database where
  /-- The names of the tables and indexes that were made. -/
  objects : List String
  /-- Notes about the database itself, by their keys. -/
  notes : List (String × Option String)
  repositories : List RepositoryRow
  files : Table FileRow
  facts : Table FactRow
  edges : Table EdgeRow
deriving DecidableEq, Repr

namespace Database

def blank : Database := ⟨[], [], [], .empty, .empty, .empty⟩

/-! ## Transactions -/

def transaction {α : Type} (c : Command Database α) : Command Database α := fun d =>
  match c d with
  | (.ok a, changed) => (.ok a, changed)
  | (.error e, _) => (.error e, d)

def refuse {α : Type} (i : Issue) : Command Database α := .fail (.database i)

/-- An answer out of the database, or what it refuses. -/
def query {α : Type} (f : Database → Except Issue α) : Command Database α :=
  .ask (fun d => (f d).mapError .database)

def nextId {ρ : Type} (t : Table ρ) : Except Issue Int64 :=
  if t.lastId = Int64.maxValue then .error .full else .ok (t.lastId + 1)

/-! ## Keys -/

def hasRepository (d : Database) (id : String) : Bool := d.repositories.any (fun r => r.id == id)

def hasFile (d : Database) (id : Int64) : Bool := d.files.rows.any (fun f => f.id == id)

/-- A file of the repository has the path. -/
def hasPath (d : Database) (repository path : String) : Bool :=
  d.files.rows.any (fun f => f.repository == repository && f.path == path)

/-! ## Statements -/

/-- A file is put behind the others. -/
def insertFile (f : NewFile) : Command Database StoredFile := fun d =>
  match nextId d.files with
  | .error i => refuse i d
  | .ok id =>
    if d.hasPath f.repository f.path then refuse (.unique "files.repository_id, files.path") d
    else if !d.hasRepository f.repository then refuse .foreignKey d
    else
      (.ok ⟨f, id⟩, { d with files := ⟨d.files.rows ++ [FileRow.ofFile id f], id⟩ })

/-- A fact is put behind the others. -/
def insertFact (file : Int64) (repository : String) (f : Fact) : Command Database Unit := fun d =>
  match nextId d.facts with
  | .error i => refuse i d
  | .ok id =>
    if !d.hasFile file || !d.hasRepository repository then refuse .foreignKey d
    else
      (.ok (), { d with facts := ⟨d.facts.rows ++ [FactRow.ofFact id file repository f], id⟩ })

/-- An edge is put behind the others. -/
def insertEdge (e : Edge) : Command Database Unit := fun d =>
  match nextId d.edges with
  | .error i => refuse i d
  | .ok id =>
    if !d.hasRepository e.repository || !d.hasFile e.sourceFile ||
        !e.targetFile.all d.hasFile then refuse .foreignKey d
    else
      (.ok (), { d with edges := ⟨d.edges.rows ++ [EdgeRow.ofEdge id e], id⟩ })

/-- The facts of a file are deleted. -/
def deleteFactsOf (file : Int64) : Command Database Unit := fun d =>
  (.ok (), { d with facts.rows := d.facts.rows.filter (fun f => f.file != file) })

/-- The edges from a file are deleted. -/
def deleteEdgesOf (file : Int64) : Command Database Unit := fun d =>
  (.ok (), { d with edges.rows := d.edges.rows.filter (fun e => e.sourceFile != file) })

/-- An edge whose target is deleted loses it. -/
def detach (files : List Int64) (e : EdgeRow) : EdgeRow :=
  { e with targetFile := e.targetFile.filter (fun t => !files.contains t) }

/-- The files of a repository are deleted, and by that their facts and the edges from them; edges
to them lose their target. -/
def deleteFiles (repository : String) : Command Database Nat := fun d =>
  let ids := (d.files.rows.filter (fun f => f.repository == repository)).map (·.id)
  (.ok ids.length, { d with
    files.rows := d.files.rows.filter (fun f => f.repository != repository)
    facts.rows := d.facts.rows.filter (fun f => !ids.contains f.file)
    edges.rows :=
      (d.edges.rows.filter (fun e => !ids.contains e.sourceFile)).map (detach ids) })

/-- A repository is deleted, and by that all rows that name it and all that hang on those. -/
def deleteRepositoryRow (id : String) : Command Database Bool := fun d =>
  let known := d.hasRepository id
  let d := { d with repositories := d.repositories.filter (fun r => r.id != id) }
  let d := (deleteFiles id d).2
  (.ok known, { d with
    facts.rows := d.facts.rows.filter (fun f => f.repository != id)
    edges.rows := d.edges.rows.filter (fun e => e.repository != id) })

/-- A repository is written over the row with its id, or behind the others. -/
def upsertRepository (r : RepositoryRow) : Command Database Unit := fun d =>
  (.ok (), { d with repositories :=
    if d.hasRepository r.id then d.repositories.map (fun o => if o.id == r.id then r else o)
    else d.repositories ++ [r] })

/-! ## Queries -/

def selectRepository (id : String) (d : Database) : Except Issue (Option Repository) :=
  match d.repositories.find? (fun r => r.id == id) with
  | none => .ok none
  | some r => some <$> r.toRepository

def selectFiles (repository : String) (d : Database) : Except Issue (List StoredFile) :=
  (d.files.rows.filter (fun f => f.repository == repository)).mapM FileRow.toFile

def selectFactsOfFile (file : Int64) (d : Database) : Except Issue (List StoredFact) :=
  (d.facts.rows.filter (fun f => f.file == file)).mapM FactRow.toFact

def selectFacts (repository : String) (d : Database) : Except Issue (List StoredFact) :=
  (d.facts.rows.filter (fun f => f.repository == repository)).mapM FactRow.toFact

def selectEdges (repository : String) (d : Database) : Except Issue (List StoredEdge) :=
  (d.edges.rows.filter (fun e => e.repository == repository)).mapM EdgeRow.toEdge

/-! ## The store -/

/-- The rows of a file are replaced, when the file is there. -/
def replaceRows (file : Int64) (repository : String) (facts : List Fact) (edges : List Edge) :
    Command Database Unit := fun d =>
  if !d.hasFile file then (.error (.unknownFile file), d)
  else
    ((deleteFactsOf file).followedBy ((deleteEdgesOf file).followedBy
      ((Command.each (insertFact file repository) facts).followedBy
        (Command.each insertEdge edges)))) d

/-- The record of a repository is read, changed and written back. -/
def updateRow (id : String) (u : RepositoryUpdate) : Command Database Repository :=
  (query (selectRepository id)).andThen (fun current =>
    let r := (current.getD (Repository.fresh id)).apply u
    (upsertRepository (RepositoryRow.ofRepository r)).followedBy (.answer r))

instance : Storage Database where
  insertFiles files := transaction (Command.collect insertFile files)
  files repository := query (selectFiles repository)
  clearFiles repository := deleteFiles repository
  replaceFacts file repository facts edges :=
    match checkEdges file repository edges with
    | .error e => .fail e
    | .ok () => transaction (replaceRows file repository facts edges)
  factsOfFile file := query (selectFactsOfFile file)
  facts repository := query (selectFacts repository)
  edges repository := query (selectEdges repository)
  updateRepository id u := transaction (updateRow id u)
  repository id := query (selectRepository id)
  deleteRepository id := deleteRepositoryRow id

end Database

end CodeSurvey.Relational
