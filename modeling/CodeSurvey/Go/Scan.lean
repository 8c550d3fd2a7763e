-- The survey of a Go file: one pass over its lines. A function takes its whole
-- body; the lines of a type are looked at again.
import CodeSurvey.Go.Block
import CodeSurvey.Go.Header
import CodeSurvey.Go.Line
import CodeSurvey.Text.Casing
import CodeSurvey.Text.Lines

namespace CodeSurvey.Go

open Text

/-! ## Names -/

/-- A name that begins with an upper-case letter can be used by others. -/
def isExported (name : List Char) : Bool := (name.head?.map isUpper).getD false

def accessibilityOf (name : List Char) : Accessibility :=
  if isExported name then .isPublic else .isPrivate

/-- The exports of a name that stands by itself. -/
def exportOf (name : List Char) (line : UInt32) : List Export :=
  if isExported name then [⟨String.ofList name, .named, none, line⟩] else []

/-! ## What single lines tell -/

/-- The import with a path and an alias. A dot takes all names in, and an underscore takes
none. -/
def importOf (newName : Option (List Char)) (path : List Char) (line : UInt32) : Import :=
  let plain := Import.plain (String.ofList path) line
  match newName with
  | none => plain
  | some ['.'] => { plain with namespaceName := some "." }
  | some ['_'] => plain
  | some name => { plain with defaultImport := some (String.ofList name) }

/-- A file that tells of one import. -/
def tellImport (spec : Option (List Char) × List Char) (line : UInt32) : FileFacts :=
  { FileFacts.nothing with imports := [importOf spec.1 spec.2 line] }

/-- What a type is by the first word of its shape. -/
def typeKind (underlying : List Char) : FactKind :=
  if startsWith ['s', 't', 'r', 'u', 'c', 't'] underlying then .class_
  else if startsWith ['i', 'n', 't', 'e', 'r', 'f', 'a', 'c', 'e'] underlying then .interface
  else .typeAlias

/-- What the declaration of a type tells. -/
def tellType (head : TypeHead) (line : List Char) (before extra : Nat) (doc : Option String) :
    FileFacts :=
  let name := String.ofList head.name
  let kind := typeKind head.underlying
  { facts := [{ Fact.bare name kind (lineNumber before) (lineNumber (before + extra)) with
      signature := headerText [line]
      docComment := doc
      exported := isExported head.name
      accessibility := some (accessibilityOf head.name) }]
    imports := []
    exports := exportOf head.name (lineNumber before)
    features := { Features.none with classes := kind == .class_, generics := head.bracketed } }

/-- What the declaration of a function or method with the given lines tells. -/
def tellFunc (head : FuncHead) (lines : List (List Char)) (before : Nat) (doc : Option String) :
    FileFacts :=
  let (params, result) := parametersAndResult head.rest
  let own := isExported head.name
  let (kind, name, exported) :=
    match head.receiver with
    | some receiver =>
      let owner := receiverName receiver
      (FactKind.method, owner ++ '.' :: head.name, own && isExported owner)
    | none => (FactKind.function, head.name, own)
  { facts := [{ Fact.bare (String.ofList name) kind (lineNumber before)
        (lineNumber (before + (lines.length - 1))) with
      signature := headerText lines
      docComment := doc
      parameters := some params
      returnType := result
      exported := exported
      accessibility := some (accessibilityOf head.name) }]
    imports := []
    exports := if head.receiver.isSome then [] else exportOf head.name (lineNumber before)
    features := { Features.none with
      generics := head.generic
      typeAnnotations := params.any (·.writtenType.isSome) } }

/-! ## The pass over the lines -/

/-- What the first of the lines gives: the facts it tells, the number of lines after it
that are used up as well, and whether a block of imports is open after that. There are
`before` lines above it, which stand nearest first. -/
def scanLine (docs : Bool) (before : Nat) (above : List (List Char)) (inImports : Bool)
    (line : List Char) (rest : List (List Char)) : FileFacts × Nat × Bool :=
  if opensImports line then (FileFacts.nothing, 0, true)
  else if inImports then
    if closesImports line then (FileFacts.nothing, 0, false)
    else match blockImport? line with
      | some spec => (tellImport spec (lineNumber before), 0, true)
      | none => (FileFacts.nothing, 0, true)
  else match import? line with
  | some spec => (tellImport spec (lineNumber before), 0, false)
  | none =>
    match type? line with
    | some head =>
      let doc := if docs then docAbove above else none
      (tellType head line before (extraLines Braces.start (line :: rest)) doc, 0, false)
    | none =>
      match func? line with
      | some head =>
        let doc := if docs then docAbove above else none
        let extra := extraLines Braces.start (line :: rest)
        (tellFunc head (line :: rest.take extra) before doc, extra, false)
      | none => (FileFacts.nothing, 0, false)

/-- The pieces of facts of the lines below others, the latest first, put in front of those
found before. -/
def scanFrom (docs : Bool) (pieces : List FileFacts) (before : Nat) (above : List (List Char))
    (inImports : Bool) : List (List Char) → List FileFacts
  | [] => pieces
  | line :: rest =>
    let (piece, used, inImports) := scanLine docs before above inImports line rest
    scanFrom docs (piece :: pieces) (before + 1 + used) ((rest.take used).reverse ++ line :: above)
      inImports (rest.drop used)
termination_by lines => lines.length
decreasing_by simp only [List.length_drop, List.length_cons]; omega

/-- The facts of a Go text; comments are read when `docs` is set. -/
def survey (docs : Bool) (source : String) : FileFacts :=
  FileFacts.concat (scanFrom docs [] 0 [] false (lines source.toList)).reverse

end CodeSurvey.Go
