-- The survey of a TypeScript file: a walk over its syntax tree, on which each
-- node gives its piece of the facts.
import CodeSurvey.Facts
import CodeSurvey.Text.Lines
import CodeSurvey.TypeScript.Parse

namespace CodeSurvey.TypeScript

open Text

/-! ## Text of nodes -/

/-- The characters of a file, by their offsets. -/
structure Source where
  chars : Array Char
  /-- The comments of the file are read as well. -/
  docs : Bool

namespace Source

/-- The characters from one offset up to another. -/
def slice (s : Source) (start stop : Nat) : List Char := (s.chars.extract start stop).toList

def textOf (s : Source) (t : Tree) : List Char := s.slice t.span.start.offset t.span.stop.offset

/-- The text of a node as one value. -/
def nameOf (s : Source) (t : Tree) : String := String.ofList (s.textOf t)

/-- The text of a string without its quotes. -/
def unquoted (s : Source) (t : Tree) : String :=
  String.ofList (dropAroundWhile (fun c => c = '"' || c = '\'' || c.toNat = 0x60)
    (trim (s.textOf t)))

end Source

/-- Where a declaration ends for its signature: before its body, if it has one. -/
def headEnd (t : Tree) : Nat := ((t.child? .body).map (·.span.start.offset)).getD t.span.stop.offset

/-- The text of a declaration from the given node up to its body. -/
def headOf (s : Source) (t first : Tree) : String :=
  let raw := trim (s.slice first.span.start.offset (headEnd t))
  String.ofList (singleSpaced (dropEndWhile (fun c => c = '\x7b' || c = ';') raw))

/-! ## Comments -/

/-- A line of a comment without the star in front of it. -/
def withoutStar (line : List Char) : List Char :=
  match trim line with
  | '*' :: r => trim r
  | t => t

/-- The text of a documenting comment; none when it is another comment or empty. -/
def docText? (raw : List Char) : Option String := do
  let body ← dropFront? ['/', '*', '*'] (trim raw)
  let body ← dropBack? ['*', '/'] body
  let text := trim (['\n'].intercalate ((lines body).map withoutStar))
  if text.isEmpty then none else some (String.ofList text)

/-- The kinds whose comment stands for what they hold. -/
def carriesDoc (k : Kind) : Bool :=
  k == .exportStatement || k == .lexicalDeclaration || k == .variableDeclaration

/-- The node that the comment of a declaration stands before, with what is above it. -/
def docAnchor (node : Tree) : List Step → Tree × List Step
  | [] => (node, [])
  | s :: above => if carriesDoc s.parent.kind then docAnchor s.parent above else (node, s :: above)

/-- The documenting comment that ends on the line above a declaration or on its own; none where
comments are not read. -/
def docComment? (s : Source) (p : Place) : Option String := do
  let (anchor, above) := docAnchor p.node p.above
  let previous ← (← above.head?).earlier.head?
  if s.docs && previous.kind == .comment && anchor.span.start.row ≤ previous.span.stop.row + 1 then
    docText? (s.textOf previous)
  else none

/-! ## Parameters -/

/-- The text without the three points in front of it. -/
def withoutDots : List Char → List Char
  | '.' :: '.' :: '.' :: r => withoutDots r
  | r => r

/-- The text of a value. -/
def valueOf (s : Source) (t : Tree) : String := String.ofList (singleSpaced (s.textOf t))

/-- A parameter that may have a type, with what is written of it. -/
def typedParameter? (s : Source) (t : Tree) : Option Parameter := do
  let pattern ← t.child? .pattern
  if pattern.kind == .this then none
  else
    let value := (t.child? .value).map (valueOf s)
    some {
      name := String.ofList (withoutDots (s.textOf pattern))
      writtenType := (t.child? .type).bind (fun w => typeText (s.textOf w))
      isOptional := t.kind == .optionalParameter || value.isSome
      defaultValue := value }

/-- A pattern with the value that it has when none is given. -/
def assignedParameter (s : Source) (t : Tree) : Parameter where
  name := ((t.child? .left).map s.nameOf).getD ""
  writtenType := none
  isOptional := true
  defaultValue := (t.child? .right).map (valueOf s)

/-- The parameter of a node in a list of parameters, if it is one. A bare pattern has no type. -/
def parameterOf? (s : Source) (t : Tree) : Option Parameter :=
  match t.kind with
  | .requiredParameter => typedParameter? s t
  | .optionalParameter => typedParameter? s t
  | .identifier => some (Parameter.called (s.nameOf t))
  | .objectPattern => some (Parameter.called (s.nameOf t))
  | .arrayPattern => some (Parameter.called (s.nameOf t))
  | .restPattern => some (Parameter.called (String.ofList (withoutDots (s.textOf t))))
  | .assignmentPattern => some (assignedParameter s t)
  | _ => none

def parametersOf (s : Source) (function : Tree) : List Parameter :=
  match function.child? .parameter with
  | some single => [Parameter.called (s.nameOf single)]
  | none =>
    match function.child? .parameters with
    | some list => list.namedChildren.filterMap (parameterOf? s)
    | none => []

/-- What a function returns, as it is written. -/
def returnTypeOf (s : Source) (function : Tree) : Option String :=
  (function.child? .returnType).bind (fun t => typeText (s.textOf t))

/-! ## Pieces -/

/-- A fact with what its kind and flags say of the features of the file. -/
def factPiece (f : Fact) : FileFacts :=
  { FileFacts.nothing with
    facts := [f]
    features := { Features.none with classes := f.kind == .class_, asyncFunctions := f.isAsync } }

def importPiece (i : Import) : FileFacts := { FileFacts.nothing with imports := [i] }

def exportPiece (es : List Export) : FileFacts := { FileFacts.nothing with exports := es }

def featurePiece (f : Features) : FileFacts := { FileFacts.nothing with features := f }

/-! ## Imports and exports -/

/-- What is taken from a module, added to an import of it. -/
def takePart (s : Source) (i : Import) (part : Tree) : Import :=
  match part.kind with
  | .identifier => { i with defaultImport := some (s.nameOf part) }
  | .namespaceImport =>
    { i with namespaceName :=
        (part.namedChildren.find? (fun n => n.kind == .identifier)).map s.nameOf }
  | .namedImports =>
    let names := part.namedChildren.filterMap (fun spec =>
      if spec.kind == .importSpecifier then (spec.child? .name).map s.nameOf else none)
    { i with named := i.named ++ names }
  | _ => i

def importOf (s : Source) (t : Tree) : FileFacts :=
  match t.child? .source with
  | none => FileFacts.nothing
  | some source =>
    let plain := { Import.plain (s.unquoted source) t.startLine with
      typeOnly := t.hasChildOfKind (.word "type") }
    let parts := ((t.childOfKind? .importClause).map (·.namedChildren)).getD []
    importPiece (parts.foldl (takePart s) plain)

/-- A module named in a call that loads it. -/
def callImportOf (s : Source) (t : Tree) : FileFacts :=
  match t.child? .function with
  | none => FileFacts.nothing
  | some function =>
    let loads := function.kind == .importFunction ||
      (function.kind == .identifier && s.nameOf function == "require")
    let given := ((t.child? .arguments).map (·.namedChildren)).getD []
    match given with
    | source :: _ =>
      if loads && source.kind == .string then
        importPiece (Import.plain (s.unquoted source) t.startLine)
      else FileFacts.nothing
    | [] => FileFacts.nothing

/-- The name of the default that a module gives out. -/
def defaultName (s : Source) (t : Tree) : String :=
  match (t.child? .declaration).bind (·.child? .name) with
  | some n => s.nameOf n
  | none =>
    match (t.child? .value).filter (fun v => v.kind == .identifier) with
    | some v => s.nameOf v
    | none => "default"

/-- The names that an exported declaration declares. -/
def declaredNames (s : Source) (d : Tree) : List String :=
  if d.kind == .lexicalDeclaration || d.kind == .variableDeclaration then
    d.namedChildren.filterMap (fun one =>
      ((one.child? .name).filter (fun n => n.kind == .identifier)).map s.nameOf)
  else ((d.child? .name).map s.nameOf).toList

/-- The names of an export in braces: each with the name under which it is given out. -/
def listedNames (s : Source) (clause : Tree) : List (String × String) :=
  clause.namedChildren.filterMap (fun spec =>
    if spec.kind == .exportSpecifier then
      (spec.child? .name).map (fun n =>
        (s.nameOf n, ((spec.child? .newName).map s.nameOf).getD (s.nameOf n)))
    else none)

def exportOf (s : Source) (t : Tree) : FileFacts :=
  let line := t.startLine
  let source := (t.child? .source).map s.unquoted
  if t.hasChildOfKind (.word "default") then
    exportPiece [⟨defaultName s t, .default, none, line⟩]
  else match t.child? .declaration with
  | some d => exportPiece ((declaredNames s d).map (fun n => ⟨n, .named, none, line⟩))
  | none =>
    match t.childOfKind? .exportClause with
    | some clause =>
      let kind := if source.isSome then ExportKind.reExport else ExportKind.named
      exportPiece ((listedNames s clause).map (fun n => ⟨n.2, kind, source, line⟩))
    | none =>
      match t.childOfKind? .namespaceExport with
      | some all =>
        let name := (all.namedChildren.head?.map s.nameOf).getD "*"
        exportPiece [⟨name, .reExport, source, line⟩]
      | none =>
        if t.hasChildOfKind (.word "*") then exportPiece [⟨"*", .all, source, line⟩]
        else FileFacts.nothing

/-- The names of the file itself that an export statement lists in braces. -/
def localExportsOf (s : Source) (t : Tree) : List String :=
  if t.kind == .exportStatement && !t.hasChildOfKind (.word "default") &&
      (t.child? .declaration).isNone && (t.child? .source).isNone then
    ((t.childOfKind? .exportClause).map (fun clause => (listedNames s clause).map (·.1))).getD []
  else []

/-! ## Declarations -/

/-- A fact of the node at a place, with its comment, and exported where an export statement
stands above it. -/
def factAt (s : Source) (p : Place) (name : String) (kind : FactKind) (signature : String) : Fact :=
  { Fact.bare name kind p.node.startLine p.node.endLine with
    signature := signature
    docComment := docComment? s p
    exported := p.isInside .exportStatement }

/-- The fact with what the function says of itself. -/
def asFunction (s : Source) (function : Tree) (f : Fact) : Fact :=
  { f with
    parameters := some (parametersOf s function)
    returnType := returnTypeOf s function
    isAsync := function.hasChildOfKind (.word "async") }

/-- What a named node gives, when it has a name. -/
def named? (s : Source) (t : Tree) (f : String → FileFacts) : FileFacts :=
  ((t.child? .name).map (fun n => f (s.nameOf n))).getD FileFacts.nothing

def functionOf (s : Source) (p : Place) : FileFacts :=
  named? s p.node (fun name =>
    factPiece (asFunction s p.node (factAt s p name .function (headOf s p.node p.node))))

/-- The kinds of values that are functions. Some grammars call a function expression by its
keyword. -/
def isFunctionValue (k : Kind) : Bool :=
  k == .arrowFunction || k == .functionExpression || k == .generatorFunction ||
    k == .word "function" || k == .other "function"

/-- The text without the arrows at its end. -/
def withoutArrow (text : List Char) : List Char := dropArrows text.reverse
where
  /-- The text whose end is read first. -/
  dropArrows : List Char → List Char
    | '>' :: '=' :: r => dropArrows r
    | r => r.reverse

/-- A declared name whose value is a function. -/
def functionValueOf (s : Source) (p : Place) : FileFacts :=
  match (p.node.child? .value).filter (fun v => isFunctionValue v.kind),
      (p.node.child? .name).filter (fun n => n.kind == .identifier) with
  | some value, some name =>
    let raw := trim (s.slice p.node.span.start.offset (headEnd value))
    let signature := String.ofList (singleSpaced (withoutArrow raw))
    factPiece (asFunction s value (factAt s p (s.nameOf name) .function signature))
  | _, _ => FileFacts.nothing

/-- A class or interface with a name. -/
def typeOf (s : Source) (kind : FactKind) (p : Place) : FileFacts :=
  named? s p.node (fun name => factPiece (factAt s p name kind (headOf s p.node p.node)))

/-- A name that stands for a type. -/
def typeAliasOf (s : Source) (p : Place) : FileFacts :=
  named? s p.node (fun name =>
    let written := dropEndWhile (· = ';') (trim (s.textOf p.node))
    factPiece (factAt s p name .typeAlias (String.ofList (singleSpaced written))))

/-! ## Methods -/

def isClass (k : Kind) : Bool :=
  k == .classDeclaration || k == .abstractClassDeclaration || k == .classExpression

/-- The name of the class that has the method: its own, or that of what it is the value
of. -/
def ownerName? (s : Source) (p : Place) : Option String :=
  match p.above with
  | ⟨body, _⟩ :: ⟨owner, _⟩ :: above =>
    if body.kind == .classBody && isClass owner.kind then
      match owner.child? .name with
      | some n => some (s.nameOf n)
      | none =>
        match above with
        | ⟨holder, _⟩ :: _ =>
          if holder.kind == .variableDeclarator then (holder.child? .name).map s.nameOf else none
        | [] => none
    else none
  | _ => none

/-- Who may call the method: what its modifier says, and without one everybody, unless the
name is a private one. -/
def accessibilityOf (s : Source) (t : Tree) (name : String) : Accessibility :=
  match t.childOfKind? .accessibilityModifier with
  | some m =>
    match s.nameOf m with
    | "private" => .isPrivate
    | "protected" => .isProtected
    | _ => .isPublic
  | none => if startsWith ['#'] name.toList then .isPrivate else .isPublic

def methodOf (s : Source) (p : Place) : FileFacts :=
  match ownerName? s p with
  | none => FileFacts.nothing
  | some owner =>
    named? s p.node (fun name =>
      let first := (p.node.children.find? (fun c => c.kind ≠ .decorator ∧ c.kind ≠ .comment)).getD
        p.node
      let fact := factAt s p (owner ++ "." ++ name) .method (headOf s p.node first)
      factPiece { asFunction s p.node fact with
        accessibility := some (accessibilityOf s p.node name) })

/-! ## The walk -/

/-- What the node at a place gives. -/
def pieceAt (s : Source) (p : Place) : FileFacts :=
  match p.node.kind with
  | .importStatement => importOf s p.node
  | .exportStatement => exportOf s p.node
  | .callExpression => callImportOf s p.node
  | .functionDeclaration => functionOf s p
  | .generatorFunctionDeclaration => functionOf s p
  | .variableDeclarator => functionValueOf s p
  | .classDeclaration => typeOf s .class_ p
  | .abstractClassDeclaration => typeOf s .class_ p
  | .methodDefinition => methodOf s p
  | .interfaceDeclaration => typeOf s .interface p
  | .typeAliasDeclaration => typeAliasOf s p
  | .jsxElement => featurePiece { Features.none with jsx := true }
  | .jsxSelfClosingElement => featurePiece { Features.none with jsx := true }
  | .decorator => featurePiece { Features.none with decorators := true }
  | .typeParameters => featurePiece { Features.none with generics := true }
  | .typeArguments => featurePiece { Features.none with generics := true }
  | .optionalChain => featurePiece { Features.none with optionalChaining := true }
  | .typeAnnotated => featurePiece { Features.none with typeAnnotations := true }
  | _ => FileFacts.nothing

/-- The name by which a fact is exported: that of its class for a method. -/
def exportedName (f : Fact) : String :=
  match f.kind with
  | .method => String.ofList (f.name.toList.takeWhile (· ≠ '.'))
  | _ => f.name

/-- A fact is exported too when its name is listed; a method, when a class with its class's
name is. -/
def exportListed (listed classes : List String) (f : Fact) : Fact :=
  let name := exportedName f
  if listed.contains name && (f.kind != .method || classes.contains name) then
    { f with exported := true }
  else f

/-- All that the places of a file tell, with the exports that its own lists add. -/
def surveyPlaces (s : Source) (places : List Place) : FileFacts :=
  let found := FileFacts.concat (places.map (pieceAt s))
  let listed := places.flatMap (fun p => localExportsOf s p.node)
  let classes := (found.facts.filter (fun f => f.kind == .class_)).map (·.name)
  { found with facts := found.facts.map (exportListed listed classes) }

/-- All that a file with the syntax tree tells. -/
def surveyTree (s : Source) (t : Tree) : FileFacts := surveyPlaces s (Place.walk t)

/-- All that a file with the text tells; comments are read when `docs` is set. -/
def survey (docs elements : Bool) (text : String) : FileFacts :=
  let chars := text.toList
  surveyTree ⟨chars.toArray, docs⟩ (parse elements chars)

end CodeSurvey.TypeScript
