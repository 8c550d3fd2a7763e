-- Stored files, facts and edges as JSON values, and read back.
import CodeSurvey.Facts.Form
import CodeSurvey.Store.Record

namespace CodeSurvey

open Json

/-! ## Files -/

def NewFile.entries (f : NewFile) : List (String × Json) :=
  [("repository_id", .text f.repository),
    ("path", .text f.path),
    ("file_name", .text f.name),
    ("extension", .text f.extension),
    ("language", orNull .text f.language),
    ("size_bytes", nat f.size.toNat),
    ("content", orNull .text f.content),
    ("content_hash", orNull .text f.contentHash)]

def NewFile.toJson (f : NewFile) : Json := .object f.entries

def NewFile.fields : Fields NewFile :=
  NewFile.mk <$> required "repository_id" readText
    <*> required "path" readText
    <*> required "file_name" readText
    <*> required "extension" readText
    <*> optional "language" readText
    <*> required "size_bytes" readUInt64
    <*> optional "content" readText
    <*> optional "content_hash" readText

def NewFile.ofJson : Reads NewFile := NewFile.fields.read "struct NewFileRecord"

def StoredFile.toJson (f : StoredFile) : Json :=
  .object (("id", int f.id.toInt) :: f.toNewFile.entries)

def StoredFile.fields : Fields StoredFile :=
  (fun id f => StoredFile.mk f id) <$> required "id" readInt64 <*> NewFile.fields

def StoredFile.ofJson : Reads StoredFile := StoredFile.fields.read "struct FileRecord"

/-! ## Facts -/

/-- A stored fact as an object, whose entries stand beside those of the fact. -/
def StoredFact.toJson (f : StoredFact) : Json :=
  .object ([("id", int f.id.toInt), ("file_id", int f.file.toInt),
    ("repository_id", .text f.repository)] ++ f.fact.entries)

/-- The fields that say where a stored fact belongs. -/
def StoredFact.placeFields : Fields (Fact → StoredFact) :=
  StoredFact.mk <$> required "id" readInt64
    <*> required "file_id" readInt64
    <*> required "repository_id" readText

/-- A stored fact from an object. Where it belongs is read before the fact. -/
def StoredFact.ofJson : Reads StoredFact
  | .object entries => do
    let place ← placeFields.ofEntries entries
    return place (← Fact.fields.ofEntries entries)
  | v => .error (.invalidType v.found "struct StoredFact")

/-! ## Edges -/

def Edge.entries (e : Edge) : List (String × Json) :=
  [("repository_id", .text e.repository),
    ("source_file_id", int e.sourceFile.toInt),
    ("target_file_id", orNull (fun t => int t.toInt) e.targetFile),
    ("external_target", orNull .text e.externalTarget),
    ("kind", .text e.kind),
    ("specifier", .text e.specifier),
    ("line", nat e.line.toNat)]

def Edge.toJson (e : Edge) : Json := .object e.entries

def Edge.fields : Fields Edge :=
  Edge.mk <$> required "repository_id" readText
    <*> required "source_file_id" readInt64
    <*> optional "target_file_id" readInt64
    <*> optional "external_target" readText
    <*> required "kind" readText
    <*> required "specifier" readText
    <*> required "line" readUInt32

def Edge.ofJson : Reads Edge := Edge.fields.read "struct NewDependencyEdge"

def StoredEdge.toJson (e : StoredEdge) : Json :=
  .object (("id", int e.id.toInt) :: e.toEdge.entries)

def StoredEdge.fields : Fields StoredEdge :=
  (fun id e => StoredEdge.mk e id) <$> required "id" readInt64 <*> Edge.fields

def StoredEdge.ofJson : Reads StoredEdge := StoredEdge.fields.read "struct DependencyEdge"

end CodeSurvey
