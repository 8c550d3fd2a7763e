-- Repositories and updates of them as JSON values, and read back; the counts of languages also as
-- one text.
import CodeSurvey.Json.Decode
import CodeSurvey.Json.Reader
import CodeSurvey.Repository

namespace CodeSurvey

open Json

/-- The counts as an object, in their order. -/
def Breakdown.toJson (b : Breakdown) : Json :=
  .object (b.map (fun e => (e.1, nat e.2.toNat)))

def Breakdown.ofJson : Reads Breakdown
  | .object entries => do
    let pairs ← entries.mapM (fun e => do return (e.1, ← readCount e.2))
    return Breakdown.ofPairs pairs
  | v => .error (.invalidType v.found "a map")

def Breakdown.text (b : Breakdown) : String := b.toJson.render

def Breakdown.ofText (s : String) : Except Fault Breakdown :=
  Json.decode (decodeMap decodeCount Breakdown.put []) s

def Repository.toJson (r : Repository) : Json :=
  .object [("id", .text r.id),
    ("status", .text r.status.name),
    ("storage_path", orNull .text r.storagePath),
    ("primary_language", orNull .text r.primaryLanguage),
    ("total_files", nat r.totalFiles.toNat),
    ("total_size", nat r.totalSize.toNat),
    ("language_breakdown", r.languages.toJson),
    ("error_message", orNull .text r.errorMessage)]

def Repository.fields : Fields Repository :=
  Repository.mk <$> required "id" readText
    <*> required "status" (readName RepositoryStatus.named)
    <*> optional "storage_path" readText
    <*> optional "primary_language" readText
    <*> required "total_files" readCount
    <*> required "total_size" readUInt64
    <*> required "language_breakdown" Breakdown.ofJson
    <*> optional "error_message" readText

def Repository.ofJson : Reads Repository := Repository.fields.read "struct RepositoryRecord"

def RepositoryUpdate.toJson (u : RepositoryUpdate) : Json :=
  .object [("status", orNull (fun s => .text s.name) u.status),
    ("storage_path", orNull .text u.storagePath),
    ("primary_language", orNull .text u.primaryLanguage),
    ("total_files", orNull (fun n => nat n.toNat) u.totalFiles),
    ("total_size", orNull (fun n => nat n.toNat) u.totalSize),
    ("language_breakdown", orNull Breakdown.toJson u.languages),
    ("error_message", orNull .text u.errorMessage)]

def RepositoryUpdate.fields : Fields RepositoryUpdate :=
  RepositoryUpdate.mk <$> optional "status" (readName RepositoryStatus.named)
    <*> optional "storage_path" readText
    <*> optional "primary_language" readText
    <*> optional "total_files" readCount
    <*> optional "total_size" readUInt64
    <*> optional "language_breakdown" Breakdown.ofJson
    <*> optional "error_message" readText

def RepositoryUpdate.ofJson : Reads RepositoryUpdate :=
  RepositoryUpdate.fields.read "struct RepositoryUpdate"

end CodeSurvey
