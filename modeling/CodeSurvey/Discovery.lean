-- The discovery of the files of a repository: the tree is walked in the order
-- of names, what belongs to tools is passed over, and of the other files those
-- of a known language and a fair size are kept and counted.
import CodeSurvey.Disk
import CodeSurvey.Language
import CodeSurvey.Settings

namespace CodeSurvey

/-! ## What is passed over -/

/-- The names of directories that are not entered. -/
def ignoredDirectories : List String := [
  ".git", ".hg", ".svn",
  "node_modules", "bower_components", "vendor", ".venv", "venv",
  "dist", "build", "out", "target", ".next", ".nuxt", "coverage",
  "__pycache__", ".pytest_cache", ".mypy_cache", ".ruff_cache", ".tox", ".cache", ".gradle",
  ".idea", ".vscode"]

/-- The ends of names of files that are passed over. -/
def ignoredEndings : List String := [
  ".min.js", ".min.css", ".map", ".lock",
  ".pyc", ".pyo", ".class", ".jar", ".o", ".a", ".so", ".dylib", ".dll", ".exe", ".wasm",
  ".png", ".jpg", ".jpeg", ".gif", ".bmp", ".ico", ".webp", ".pdf",
  ".zip", ".tar", ".gz", ".tgz", ".7z",
  ".woff", ".woff2", ".ttf", ".eot", ".mp3", ".mp4", ".mov"]

/-- The names of files that are passed over. -/
def ignoredNames : List String :=
  ["package-lock.json", "npm-shrinkwrap.json", "pnpm-lock.yaml", ".DS_Store", "Thumbs.db"]

/-- A directory with the name is not entered. -/
def isIgnoredDirectory (name : String) : Bool := ignoredDirectories.contains name

/-- A file with the name is passed over. -/
def isIgnoredFile (name : String) : Bool :=
  ignoredNames.contains name ||
    ignoredEndings.any (fun ending => Text.endsWith ending.toList name.toList)

/-! ## What is found -/

/-- A file that was kept. -/
structure FoundFile where
  /-- The path, with the root in front. -/
  path : String
  /-- The path below the root. -/
  relativePath : String
  language : String
  size : UInt64
  extension : String
deriving DecidableEq, Repr

/-- How much was found. -/
structure DiscoveryTotals where
  files : UInt64
  size : UInt64
  /-- The number of files of each language, in the order in which the languages were met. -/
  languages : Breakdown
deriving DecidableEq, Repr

/-- The files that were kept, in order, and how much they are. -/
structure Discovered where
  files : List FoundFile
  totals : DiscoveryTotals
deriving DecidableEq, Repr

def Discovered.nothing : Discovered := ⟨[], ⟨0, 0, []⟩⟩

/-! ## The walk -/

mutual

/-- The files below a node, with the names that lead to them. -/
def filesBelow (above : List String) : Disk.Node → List (List String × Disk.Content)
  | .file c => [(above, c)]
  | .link _ => []
  | .directory entries => filesAmong above entries

/-- The files below the entries of a directory. -/
def filesAmong (above : List String) :
    List (String × Disk.Node) → List (List String × Disk.Content)
  | [] => []
  | (name, n) :: r =>
    if n.isDirectory && isIgnoredDirectory name then filesAmong above r
    else filesBelow (above ++ [name]) n ++ filesAmong above r

end

/-- The file with the names below the root, if it is kept. -/
def foundFile? (largest : UInt64) (root : String) (names : List String) (c : Disk.Content) :
    Option FoundFile :=
  let name := names.getLastD ""
  let relative := "/".intercalate names
  let extension := extensionOf name
  if isIgnoredFile name || c.size = 0 || c.size > largest.toNat then none
  else (languageOf? extension).map (fun language =>
    ⟨Path.join root relative, relative, language, UInt64.ofNat c.size, extension⟩)

def DiscoveryTotals.add (t : DiscoveryTotals) (f : FoundFile) : DiscoveryTotals :=
  ⟨t.files + 1, t.size + f.size, t.languages.add f.language⟩

def DiscoveryTotals.ofFiles (files : List FoundFile) : DiscoveryTotals :=
  files.foldl DiscoveryTotals.add Discovered.nothing.totals

/-- What is found below the entries of a directory. -/
def Discovered.ofEntries (s : DiscoverySettings) (root : String)
    (entries : List (String × Disk.Node)) : Discovered :=
  let files := (filesAmong [] entries).filterMap (fun e => foundFile? s.maxFileSize root e.1 e.2)
  ⟨files, .ofFiles files⟩

/-- What is found below the directory at a path. -/
def discover (s : DiscoverySettings) (root : String) (d : Disk) : Except Failure Discovered :=
  match d.entries root with
  | .ok entries => .ok (.ofEntries s root entries)
  | .error i => .error (.discovery root i.message)

end CodeSurvey
