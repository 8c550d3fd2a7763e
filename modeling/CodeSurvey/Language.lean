-- The languages of files, told from the extensions of their names.
import CodeSurvey.Path
import CodeSurvey.Text.Casing

namespace CodeSurvey

/-- The language of a file with each known extension. -/
def languageTable : List (String × String) := [
  ("ts", "typescript"), ("tsx", "typescript"), ("mts", "typescript"), ("cts", "typescript"),
  ("js", "javascript"), ("jsx", "javascript"), ("mjs", "javascript"), ("cjs", "javascript"),
  ("py", "python"), ("pyi", "python"), ("go", "go"), ("java", "java"), ("kt", "kotlin"),
  ("kts", "kotlin"), ("scala", "scala"), ("rs", "rust"), ("c", "c"), ("h", "c"), ("cc", "cpp"),
  ("cpp", "cpp"), ("cxx", "cpp"), ("hpp", "cpp"), ("hh", "cpp"), ("cs", "csharp"),
  ("rb", "ruby"), ("php", "php"), ("swift", "swift"), ("dart", "dart"), ("lua", "lua"),
  ("ex", "elixir"), ("exs", "elixir"), ("hs", "haskell"), ("sh", "shell"), ("bash", "shell"),
  ("zsh", "shell"), ("sql", "sql"), ("html", "html"), ("htm", "html"), ("css", "css"),
  ("scss", "scss"), ("less", "less"), ("vue", "vue"), ("svelte", "svelte"), ("json", "json"),
  ("yml", "yaml"), ("yaml", "yaml"), ("toml", "toml"), ("xml", "xml"), ("md", "markdown"),
  ("mdx", "markdown")]

/-- The extension in lower case, without dots in front. -/
def bareExtension (ext : String) : String :=
  String.ofList (Text.lower (ext.toList.dropWhile (· = '.')))

/-- The extension in lower case, without blanks around it or dots in front. -/
def normalizedExtension (ext : String) : String :=
  String.ofList (Text.lower ((Text.trim ext.toList).dropWhile (· = '.')))

/-- The language of files with the extension, which may have dots in front. -/
def languageOf? (ext : String) : Option String :=
  (languageTable.find? (fun e => e.1 == bareExtension ext)).map (·.2)

/-- The extension of the file at a path in lower case, empty when it has none. -/
def extensionOf (path : String) : String :=
  match (Path.fileName? path).bind Path.nameExtension? with
  | some ext => String.ofList (Text.lower ext.toList)
  | none => ""

/-! ## Counts of files by language -/

/-- The number of files of each language, in the order in which the languages were
first met. -/
abbrev Breakdown := List (String × UInt64)

/-- The count of one language set. A language that is there keeps its place. -/
def Breakdown.put (language : String) (count : UInt64) : Breakdown → Breakdown
  | [] => [(language, count)]
  | (l, n) :: r => if l = language then (l, count) :: r else (l, n) :: Breakdown.put language count r

/-- The count of one language, zero when it was not met. -/
def Breakdown.count (language : String) (b : Breakdown) : UInt64 :=
  ((b.find? (fun e => e.1 = language)).map (·.2)).getD 0

/-- The counts that the pairs give one after the other. -/
def Breakdown.ofPairs (pairs : List (String × UInt64)) : Breakdown :=
  pairs.foldl (fun b (l, n) => Breakdown.put l n b) []

def Breakdown.add (language : String) (b : Breakdown) : Breakdown :=
  Breakdown.put language (Breakdown.count language b + 1) b

/-- The language with the most files, the first of several. -/
def Breakdown.primary : Breakdown → String
  | [] => "unknown"
  | e :: r => (r.foldl (fun best x => if best.2 < x.2 then x else best) e).1

end CodeSurvey
