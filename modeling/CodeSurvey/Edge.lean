-- Edges between files and what they import. Where an import leads is told from
-- its specifier alone, by the rules of its language.
import CodeSurvey.Facts
import CodeSurvey.Text.Blank

namespace CodeSurvey

/-- An import of a file as it is stored. Without a target it leads out of the
repository, to what `externalTarget` names, or to a file that is not looked up. -/
structure Edge where
  repository : String
  sourceFile : Int64
  targetFile : Option Int64
  externalTarget : Option String
  kind : String
  specifier : String
  line : UInt32
deriving DecidableEq, Repr

open Text

/-- The specifier names a file of the same repository. -/
def isRelative (language specifier : String) : Bool :=
  let s := specifier.toList
  match language with
  | "python" => startsWith ['.'] s
  | "go" => startsWith ['.', '/'] s || startsWith ['.', '.', '/'] s
  | _ => startsWith ['.'] s || startsWith ['/'] s

/-- The package that a specifier belongs to: its first dotted name in Python, the whole of
it in Go, and elsewhere its first name, or two when the first names a scope. -/
def packageOf (language specifier : String) : String :=
  let s := specifier.toList
  match language with
  | "python" => String.ofList (s.takeWhile (· ≠ '.'))
  | "go" => specifier
  | _ =>
    match s.splitOn '/' with
    | first :: second :: _ =>
      if startsWith ['@'] first then String.ofList (first ++ '/' :: second) else String.ofList first
    | [first] => String.ofList first
    | [] => specifier

/-- The kind of an edge that an import gives. -/
def importEdgeKind : String := "import"

/-- The edge of one import of a stored file; none when its source is blank. -/
def draftEdge (repository : String) (file : Int64) (language : String) (i : Import) :
    Option Edge :=
  let specifier := String.ofList (trim i.source.toList)
  if specifier.isEmpty then none
  else some {
    repository := repository
    sourceFile := file
    targetFile := none
    externalTarget :=
      if isRelative language specifier then none else some (packageOf language specifier)
    kind := importEdgeKind
    specifier := specifier
    line := i.line }

/-- The edges of the imports of a stored file, in order. -/
def draftEdges (repository : String) (file : Int64) (language : String) (imports : List Import) :
    List Edge :=
  imports.filterMap (draftEdge repository file language)

end CodeSurvey
