-- What was discovered as JSON values, and read back.
import CodeSurvey.Discovery
import CodeSurvey.Repository.Form

namespace CodeSurvey

open Json

def FoundFile.toJson (f : FoundFile) : Json :=
  .object [("path", .text f.path), ("relative_path", .text f.relativePath),
    ("language", .text f.language), ("size", nat f.size.toNat), ("extension", .text f.extension)]

def FoundFile.fields : Fields FoundFile :=
  FoundFile.mk <$> required "path" readPath
    <*> required "relative_path" readText
    <*> required "language" readText
    <*> required "size" readUInt64
    <*> required "extension" readText

def FoundFile.ofJson : Reads FoundFile := FoundFile.fields.read "struct FileInfo"

def DiscoveryTotals.toJson (t : DiscoveryTotals) : Json :=
  .object [("total_files", nat t.files.toNat), ("total_size", nat t.size.toNat),
    ("languages", t.languages.toJson)]

def DiscoveryTotals.fields : Fields DiscoveryTotals :=
  DiscoveryTotals.mk <$> required "total_files" readCount
    <*> required "total_size" readUInt64
    <*> required "languages" Breakdown.ofJson

def DiscoveryTotals.ofJson : Reads DiscoveryTotals :=
  DiscoveryTotals.fields.read "struct DiscoveryStats"

def Discovered.toJson (d : Discovered) : Json :=
  .object [("files", .array (d.files.map FoundFile.toJson)), ("stats", d.totals.toJson)]

def Discovered.fields : Fields Discovered :=
  Discovered.mk <$> required "files" (readList FoundFile.ofJson)
    <*> required "stats" DiscoveryTotals.ofJson

def Discovered.ofJson : Reads Discovered := Discovered.fields.read "struct DiscoveryResult"

/-- What was discovered as it is shown: the files with their paths below the root. -/
def Discovered.overview (d : Discovered) : Json :=
  .record [
    ("files", .array (d.files.map (fun f => .record [("path", .text f.relativePath),
      ("language", .text f.language), ("size", nat f.size.toNat)]))),
    ("totalFiles", nat d.totals.files.toNat),
    ("totalSize", nat d.totals.size.toNat),
    ("languages", .record (d.totals.languages.map (fun (l, n) => (l, nat n.toNat)))),
    ("primaryLanguage", .text d.totals.languages.primary)]

end CodeSurvey
