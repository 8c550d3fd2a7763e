-- Paths as texts: their parts, and the questions that parts answer.
import CodeSurvey.Text.Blank

namespace CodeSurvey.Path

/-- A part of a path: the root in front, this directory, the directory above, or a
name. -/
inductive Part where
  | root
  | here
  | up
  | name (s : String)
deriving DecidableEq, Repr

def isAbsolute (path : String) : Bool := path.toList.head? = some '/'

/-- The part that stands between two slashes; nothing for an empty one. -/
def partOf (piece : List Char) : Option Part :=
  if piece = [] then none
  else if piece = ['.'] then some .here
  else if piece = ['.', '.'] then some .up
  else some (.name (String.ofList piece))

/-- The parts of a path. This directory counts only when it comes first. -/
def parts (path : String) : List Part :=
  let pieces := path.toList.splitOn '/'
  let all := pieces.filterMap partOf
  if isAbsolute path then .root :: all.filter (· ≠ .here)
  else
    let lead := if pieces.head? = some ['.'] then [Part.here] else []
    lead ++ all.filter (· ≠ .here)

/-- The name at the end of a path, when the last part is a name. -/
def fileName? (path : String) : Option String :=
  match (parts path).getLast? with
  | some (.name s) => some s
  | _ => none

/-- The text after the last dot of a name, unless that dot comes first. -/
def nameExtension? (name : String) : Option String :=
  let back := name.toList.reverse
  let ext := back.takeWhile (· ≠ '.')
  match back.drop ext.length with
  | '.' :: _ :: _ => some (String.ofList ext.reverse)
  | _ => none

def Part.text : Part → String
  | .root => ""
  | .here => "."
  | .up => ".."
  | .name s => s

def ofParts : List Part → String
  | [.root] => "/"
  | ps => "/".intercalate (ps.map Part.text)

/-- The path without its last part; none for the root and for a path without parts. -/
def parent? (path : String) : Option String :=
  match (parts path).getLast? with
  | none => none
  | some .root => none
  | some _ => some (ofParts (parts path).dropLast)

/-- One path after another. An absolute path stands for itself. -/
def join (base path : String) : String :=
  if isAbsolute path then path
  else if base.isEmpty then path
  else if base.toList.getLast? = some '/' then base ++ path
  else base ++ "/" ++ path

end CodeSurvey.Path
