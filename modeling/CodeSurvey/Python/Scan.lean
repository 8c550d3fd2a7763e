-- The survey of a Python file: one pass over its lines, with a stack of the
-- blocks that are open. Every recognised line gives a piece of the facts.
import CodeSurvey.Python.Block
import CodeSurvey.Python.Header
import CodeSurvey.Text.Lines

namespace CodeSurvey.Python

open Text

/-! ## Names -/

/-- By its name, a declaration is private with two underscores in front and not behind,
protected with one in front, and public otherwise. -/
def accessibilityOf (name : List Char) : Accessibility :=
  let twoFront := startsWith ['_', '_'] name
  if twoFront && !endsWith ['_', '_'] name then .isPrivate
  else if startsWith ['_'] name && !twoFront then .isProtected
  else .isPublic

/-! ## Open blocks -/

/-- What a block belongs to. -/
inductive Owner where
  | class_ (qualified : List Char) (exported : Bool)
  | function
deriving DecidableEq, Repr

/-- An open block: the indent of its header, and how many lines precede its end. -/
structure Scope where
  indent : Nat
  last : Nat
  owner : Owner
deriving DecidableEq, Repr

/-- The blocks that are still open at a header with the indent, after `before`
lines. The innermost block comes first. -/
def stillOpen (indent before : Nat) (scopes : List Scope) : List Scope :=
  scopes.dropWhile (fun s => decide (indent ≤ s.indent) || decide (s.last < before))

/-- The class whose block encloses directly, with its exported flag. -/
def enclosingClass (scopes : List Scope) : Option (List Char × Bool) :=
  match scopes with
  | ⟨_, _, .class_ qualified exported⟩ :: _ => some (qualified, exported)
  | _ => none

/-! ## Imports -/

/-- The list of names of an import, with the lines over which it runs on. A list in
parentheses that are not closed on their line takes lines up to the one that closes
them, each without its comment. -/
def namesOver (names : List Char) (rest : List (List Char)) : List Char × Nat :=
  if startsWith ['('] names && !names.contains ')' then
    let open_ := rest.takeWhile (fun l => !(before ['#'] l).contains ')')
    let used := rest.take (open_.length + 1)
    (names ++ used.flatMap (fun l => ' ' :: trim (before ['#'] l)), used.length)
  else (names, 0)

/-- The imported names of a list, without their aliases. -/
def namesOf (names : List Char) : List String :=
  let inner := dropAroundWhile (fun c => c = '(' || c = ')' || c = ' ') names
  let firsts := (inner.splitOn ',').filterMap (fun item => (words item).head?)
  ((firsts.map (dropAroundWhile (fun c => c = '(' || c = ')'))).filter (!·.isEmpty)).map
    String.ofList

/-- The imports of a list of modules, each with the alias that follows it. -/
def modulesOf (list : List Char) (line : UInt32) : List Import :=
  (list.splitOn ',').filterMap (fun item =>
    match words item with
    | [] => none
    | source :: ['a', 's'] :: newName :: _ =>
      some { Import.plain (String.ofList source) line with
        namespaceName := some (String.ofList newName) }
    | source :: _ => some (Import.plain (String.ofList source) line))

/-! ## Declarations -/

/-- A declaration with all that its lines say. -/
structure Declaration where
  declared : Declared
  header : Header
  /-- The number of lines before its first line. -/
  before : Nat
  /-- The number of lines before the last line of its block. -/
  last : Nat
  doc : Option String
  /-- The declaration is outside of all blocks and not indented. -/
  topLevel : Bool
  enclosing : Option (List Char × Bool)

def Declaration.qualify (d : Declaration) (name : List Char) : List Char :=
  match d.enclosing with
  | some (outer, _) => outer ++ '.' :: name
  | none => name

/-- A name in a class is exported when the class is and the name is public, and any
other when it stands at the top level without an underscore in front. -/
def Declaration.exports (d : Declaration) (name : List Char) : Bool :=
  match d.enclosing with
  | some (_, exported) => exported && accessibilityOf name == .isPublic
  | none => d.topLevel && !startsWith ['_'] name

/-- The fact of a declaration without what only functions have. -/
def Declaration.fact (d : Declaration) (name : List Char) (kind : FactKind) : Fact :=
  { Fact.bare (String.ofList (d.qualify name)) kind (lineNumber d.before) (lineNumber d.last) with
    signature := String.ofList (singleSpaced d.header.text)
    docComment := d.doc
    exported := d.exports name
    accessibility := some (accessibilityOf name) }

/-- The exported name of a declaration at the top level. -/
def Declaration.exported (d : Declaration) (name : List Char) : List Export :=
  if d.topLevel && d.exports name then
    [⟨String.ofList name, .named, none, lineNumber d.before⟩]
  else []

def Declaration.tell (d : Declaration) : FileFacts :=
  match d.declared with
  | .function name isAsync =>
    let kind := if d.enclosing.isSome then FactKind.method else FactKind.function
    let params := parametersOf d.enclosing.isSome (d.header.params.getD [])
    let result := returnType d.header.tail
    { facts := [{ d.fact name kind with
        parameters := some params
        returnType := result
        isAsync := isAsync }]
      imports := []
      exports := d.exported name
      features := { Features.none with
        asyncFunctions := isAsync
        typeAnnotations := result.isSome || params.any (·.writtenType.isSome) } }
  | .class_ name =>
    { facts := [d.fact name .class_]
      imports := []
      exports := d.exported name
      features := { Features.none with classes := true } }

def Declaration.owner (d : Declaration) : Owner :=
  match d.declared with
  | .function _ _ => .function
  | .class_ name => .class_ (d.qualify name) (d.exports name)

/-! ## The pass over the lines -/

/-- What the first of the lines gives: the facts it tells, the number of lines after it
that are used up as well, and the blocks open after that. -/
def scanLine (docs : Bool) (before : Nat) (scopes : List Scope) (line : List Char)
    (rest : List (List Char)) : FileFacts × Nat × List Scope :=
  if isDecorator line then
    ({ FileFacts.nothing with features := { Features.none with decorators := true } }, 0, scopes)
  else match fromImport? line with
  | some (source, names) =>
    let (names, used) := namesOver names rest
    let found := { Import.plain (String.ofList source) (lineNumber before) with
      named := namesOf names }
    ({ FileFacts.nothing with imports := [found] }, used, scopes)
  | none =>
    match import? line with
    | some list =>
      ({ FileFacts.nothing with imports := modulesOf list (lineNumber before) }, 0, scopes)
    | none =>
      match declared? line with
      | none => (FileFacts.nothing, 0, scopes)
      | some declared =>
        let indent := indentOf line
        let scopes := stillOpen indent before scopes
        match readHeader (line :: rest) with
        | none => (FileFacts.nothing, 0, scopes)
        | some (header, size) =>
          let block := blockOf indent (rest.drop (size - 1))
          let d : Declaration :=
            { declared := declared
              header := header
              before := before
              last := before + (size - 1) + block.length
              doc := if docs then docOf block else none
              topLevel := scopes.isEmpty && indent == 0
              enclosing := enclosingClass scopes }
          (d.tell, size - 1, ⟨indent, d.last, d.owner⟩ :: scopes)

/-- The pieces of facts of the lines after `before` others, the latest first, put in
front of those found before. -/
def scanFrom (docs : Bool) (pieces : List FileFacts) (before : Nat) (scopes : List Scope) :
    List (List Char) → List FileFacts
  | [] => pieces
  | line :: rest =>
    let (piece, used, scopes) := scanLine docs before scopes line rest
    scanFrom docs (piece :: pieces) (before + 1 + used) scopes (rest.drop used)
termination_by lines => lines.length
decreasing_by simp only [List.length_drop, List.length_cons]; omega

/-- The facts of a Python text; comments are read when `docs` is set. -/
def survey (docs : Bool) (source : String) : FileFacts :=
  FileFacts.concat (scanFrom docs [] 0 [] (lines source.toList)).reverse

end CodeSurvey.Python
