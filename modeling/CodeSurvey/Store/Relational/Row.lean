-- The rows of the tables in which repositories, files, facts and edges are
-- kept, and the records that are written to them and read back. Columns of
-- whole numbers can hold other values, too, when somebody else wrote them.
import CodeSurvey.Facts.Text
import CodeSurvey.Repository.Form
import CodeSurvey.Store.Record
import CodeSurvey.Store.Relational.Issue

namespace CodeSurvey.Relational

/-! ## Cells -/

/-- A value in a column of whole numbers. A number with a fraction is kept as it was written. -/
inductive Cell where
  | integer (n : Int64)
  | real (written : String)
  | text (s : String)
deriving DecidableEq, Repr

namespace Cell

/-- A number without a sign, which from `2 ^ 63` on turns negative. -/
def ofUInt64 (n : UInt64) : Cell := integer n.toInt64

def ofUInt32 (n : UInt32) : Cell := integer (Int64.ofNat n.toNat)

def ofBool (b : Bool) : Cell := integer (if b then 1 else 0)

def toInt64 (index : Nat) (column : String) : Cell → Except Issue Int64
  | integer n => .ok n
  | real _ => .error (.wrongType .real index column)
  | text _ => .error (.wrongType .text index column)

/-- The number in the column, zero for a negative one. -/
def toUInt64 (index : Nat) (column : String) (c : Cell) : Except Issue UInt64 := do
  let n ← c.toInt64 index column
  return if n < 0 then 0 else n.toUInt64

def toUInt32 (index : Nat) (column : String) (c : Cell) : Except Issue UInt32 := do
  let n ← c.toInt64 index column
  if 0 ≤ n.toInt ∧ n.toInt < Text.wordSize 32 then return UInt32.ofNat n.toInt.toNat
  else throw (.outOfRange index n.toInt)

/-- The truth value in the column: whether it is not zero. -/
def toBool (index : Nat) (column : String) (c : Cell) : Except Issue Bool := do
  let n ← c.toInt64 index column
  return n != 0

end Cell

/-- What a column's text reads as, or the complaint about it. -/
def converted {α : Type} (index : Nat) (r : Except String α) : Except Issue α :=
  r.mapError (.conversion index)

/-! ## Repositories -/

/-- A row of the table of repositories. -/
structure RepositoryRow where
  id : String
  status : String
  storagePath : Option String
  primaryLanguage : Option String
  totalFiles : Cell
  totalSize : Cell
  languages : String
  errorMessage : Option String
deriving DecidableEq, Repr

def RepositoryRow.ofRepository (r : Repository) : RepositoryRow where
  id := r.id
  status := r.status.name
  storagePath := r.storagePath
  primaryLanguage := r.primaryLanguage
  totalFiles := .ofUInt64 r.totalFiles
  totalSize := .ofUInt64 r.totalSize
  languages := r.languages.text
  errorMessage := r.errorMessage

def RepositoryRow.toRepository (r : RepositoryRow) : Except Issue Repository := do
  let status ← converted 1 (RepositoryStatus.ofName r.status)
  let totalFiles ← r.totalFiles.toUInt64 4 "total_files"
  let totalSize ← r.totalSize.toUInt64 5 "total_size"
  let languages ← converted 6 ((Breakdown.ofText r.languages).mapError (·.message))
  return ⟨r.id, status, r.storagePath, r.primaryLanguage, totalFiles, totalSize, languages,
    r.errorMessage⟩

/-! ## Files -/

/-- A row of the table of files. -/
structure FileRow where
  id : Int64
  repository : String
  path : String
  name : String
  extension : String
  language : Option String
  size : Cell
  content : Option String
  contentHash : Option String
deriving DecidableEq, Repr

def FileRow.ofFile (id : Int64) (f : NewFile) : FileRow where
  id := id
  repository := f.repository
  path := f.path
  name := f.name
  extension := f.extension
  language := f.language
  size := .ofUInt64 f.size
  content := f.content
  contentHash := f.contentHash

def FileRow.toFile (r : FileRow) : Except Issue StoredFile := do
  let size ← r.size.toUInt64 6 "size_bytes"
  return ⟨⟨r.repository, r.path, r.name, r.extension, r.language, size, r.content,
    r.contentHash⟩, r.id⟩

/-! ## Facts -/

/-- A row of the table of facts. -/
structure FactRow where
  id : Int64
  file : Int64
  repository : String
  name : String
  kind : String
  signature : String
  docComment : Option String
  startLine : Cell
  endLine : Cell
  parameters : Option String
  returnType : Option String
  exported : Cell
  isAsync : Cell
  accessibility : Option String
deriving DecidableEq, Repr

/-- The row of a fact of a file. -/
def FactRow.ofFact (id file : Int64) (repository : String) (f : Fact) : FactRow where
  id := id
  file := file
  repository := repository
  name := f.name
  kind := f.kind.name
  signature := f.signature
  docComment := f.docComment
  startLine := .ofUInt32 f.startLine
  endLine := .ofUInt32 f.endLine
  parameters := f.parameters.map Parameter.listText
  returnType := f.returnType
  exported := .ofBool f.exported
  isAsync := .ofBool f.isAsync
  accessibility := f.accessibility.map Accessibility.name

/-- What a column reads as where it holds something. -/
def whereSome {α : Type} (read : String → Except Issue α) : Option String → Except Issue (Option α)
  | none => .ok none
  | some s => some <$> read s

def FactRow.toFact (r : FactRow) : Except Issue StoredFact := do
  let kind ← converted 4 (FactKind.ofName r.kind)
  let parameters ← whereSome
    (fun s => converted 9 ((Parameter.ofListText s).mapError (·.message))) r.parameters
  let accessibility ← whereSome (fun s => converted 13 (Accessibility.ofName s)) r.accessibility
  let startLine ← r.startLine.toUInt32 7 "start_line"
  let endLine ← r.endLine.toUInt32 8 "end_line"
  let exported ← r.exported.toBool 11 "exported"
  let isAsync ← r.isAsync.toBool 12 "is_async"
  return ⟨r.id, r.file, r.repository, ⟨r.name, kind, r.signature, r.docComment, startLine, endLine,
    parameters, r.returnType, exported, isAsync, accessibility⟩⟩

/-! ## Edges -/

/-- A row of the table of edges. -/
structure EdgeRow where
  id : Int64
  repository : String
  sourceFile : Int64
  targetFile : Option Int64
  externalTarget : Option String
  kind : String
  specifier : String
  line : Cell
deriving DecidableEq, Repr

def EdgeRow.ofEdge (id : Int64) (e : Edge) : EdgeRow where
  id := id
  repository := e.repository
  sourceFile := e.sourceFile
  targetFile := e.targetFile
  externalTarget := e.externalTarget
  kind := e.kind
  specifier := e.specifier
  line := .ofUInt32 e.line

def EdgeRow.toEdge (r : EdgeRow) : Except Issue StoredEdge := do
  let line ← r.line.toUInt32 7 "line"
  return ⟨⟨r.repository, r.sourceFile, r.targetFile, r.externalTarget, r.kind, r.specifier, line⟩,
    r.id⟩

end CodeSurvey.Relational
