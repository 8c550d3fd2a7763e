-- What a source file tells about itself: its functions, classes and types, what
-- it imports and exports, and which features of its language it uses.
import CodeSurvey.Text.Blank

namespace CodeSurvey

/-! ## Kinds -/

/-- What a fact is about. -/
inductive FactKind where
  | function
  | method
  | class_
  | interface
  | typeAlias
deriving DecidableEq, Repr

def FactKind.named : List (String × FactKind) :=
  [("function", .function), ("method", .method), ("class", .class_), ("interface", .interface),
    ("type_alias", .typeAlias)]

/-- The name of a kind of fact. -/
def FactKind.name : FactKind → String
  | .function => "function"
  | .method => "method"
  | .class_ => "class"
  | .interface => "interface"
  | .typeAlias => "type_alias"

/-- Who may use a declaration. -/
inductive Accessibility where
  | isPublic
  | isProtected
  | isPrivate
deriving DecidableEq, Repr

def Accessibility.named : List (String × Accessibility) :=
  [("public", .isPublic), ("protected", .isProtected), ("private", .isPrivate)]

def Accessibility.name : Accessibility → String
  | .isPublic => "public"
  | .isProtected => "protected"
  | .isPrivate => "private"

/-- How a name leaves its file: under its own name, as the default, passed on from
another file, or along with all names of another file. -/
inductive ExportKind where
  | named
  | default
  | reExport
  | all
deriving DecidableEq, Repr

def ExportKind.byName : List (String × ExportKind) :=
  [("named", .named), ("default", .default), ("re_export", .reExport), ("all", .all)]

/-- The name of a kind of export. -/
def ExportKind.name : ExportKind → String
  | .named => "named"
  | .default => "default"
  | .reExport => "re_export"
  | .all => "all"

/-- The item with the name, or a complaint that there is none of this sort. -/
def findNamed {α : Type} (sort : String) (known : List (String × α)) (name : String) :
    Except String α :=
  match known.find? (fun e => e.1 == name) with
  | some (_, a) => .ok a
  | none => .error ("unknown " ++ sort ++ ": " ++ name)

/-- The kind of fact with the name. -/
def FactKind.ofName (name : String) : Except String FactKind :=
  findNamed "fact kind" FactKind.named name

def Accessibility.ofName (name : String) : Except String Accessibility :=
  findNamed "accessibility" Accessibility.named name

/-! ## Facts -/

/-- A parameter of a function. -/
structure Parameter where
  name : String
  writtenType : Option String
  isOptional : Bool
  defaultValue : Option String
deriving DecidableEq, Repr

/-- A parameter of which only the name is known. -/
def Parameter.called (name : String) : Parameter := ⟨name, none, false, none⟩

/-- A function, method, class or type of a source file. Lines count from one, and the
last line belongs to the fact. -/
structure Fact where
  name : String
  kind : FactKind
  signature : String
  docComment : Option String
  startLine : UInt32
  endLine : UInt32
  parameters : Option (List Parameter)
  returnType : Option String
  exported : Bool
  isAsync : Bool
  accessibility : Option Accessibility
deriving DecidableEq, Repr

/-- A fact of which only its name, kind and place are known. -/
def Fact.bare (name : String) (kind : FactKind) (startLine endLine : UInt32) : Fact where
  name := name
  kind := kind
  signature := ""
  docComment := none
  startLine := startLine
  endLine := endLine
  parameters := none
  returnType := none
  exported := false
  isAsync := false
  accessibility := none

def Fact.withoutDoc (f : Fact) : Fact := { f with docComment := none }

/-- An import: the module that is named, and what is taken from it. -/
structure Import where
  source : String
  defaultImport : Option String
  named : List String
  namespaceName : Option String
  typeOnly : Bool
  line : UInt32
deriving DecidableEq, Repr

/-- An import that takes nothing by name. -/
def Import.plain (source : String) (line : UInt32) : Import := ⟨source, none, [], none, false, line⟩

/-- An exported name. -/
structure Export where
  name : String
  kind : ExportKind
  source : Option String
  line : UInt32
deriving DecidableEq, Repr

/-- The features of its language that a file uses. -/
structure Features where
  asyncFunctions : Bool
  classes : Bool
  decorators : Bool
  generics : Bool
  jsx : Bool
  optionalChaining : Bool
  typeAnnotations : Bool
deriving DecidableEq, Repr

def Features.none : Features := ⟨false, false, false, false, false, false, false⟩

def Features.or (a b : Features) : Features where
  asyncFunctions := a.asyncFunctions || b.asyncFunctions
  classes := a.classes || b.classes
  decorators := a.decorators || b.decorators
  generics := a.generics || b.generics
  jsx := a.jsx || b.jsx
  optionalChaining := a.optionalChaining || b.optionalChaining
  typeAnnotations := a.typeAnnotations || b.typeAnnotations

/-- All that a source file tells. -/
structure FileFacts where
  facts : List Fact
  imports : List Import
  exports : List Export
  features : Features
deriving DecidableEq, Repr

def FileFacts.nothing : FileFacts := ⟨[], [], [], Features.none⟩

/-- The file has no fact, import or export. Its features do not count. -/
def FileFacts.isEmpty (f : FileFacts) : Bool :=
  f.facts.isEmpty && f.imports.isEmpty && f.exports.isEmpty

/-- What two parts of a file tell, one after the other. -/
def FileFacts.append (a b : FileFacts) : FileFacts where
  facts := a.facts ++ b.facts
  imports := a.imports ++ b.imports
  exports := a.exports ++ b.exports
  features := a.features.or b.features

instance : Append FileFacts := ⟨FileFacts.append⟩

/-- What the parts of a file tell, in order. -/
def FileFacts.concat (parts : List FileFacts) : FileFacts where
  facts := parts.flatMap (·.facts)
  imports := parts.flatMap (·.imports)
  exports := parts.flatMap (·.exports)
  features := parts.foldl (fun f part => f.or part.features) Features.none

def FileFacts.withoutDocs (f : FileFacts) : FileFacts :=
  { f with facts := f.facts.map Fact.withoutDoc }

theorem FileFacts.withoutDocs_concat (parts : List FileFacts) :
    (concat parts).withoutDocs = concat (parts.map (·.withoutDocs)) := by
  simp only [withoutDocs, concat, List.map_flatMap, List.flatMap_map, List.foldl_map]

/-- The number of a line that stands after `before` others. -/
def lineNumber (before : Nat) : UInt32 := UInt32.ofNat (before + 1)

/-! ## Types as they are written -/

/-- The text of a type without the arrow or colon in front of it and the marks that
end its declaration; none when nothing is left. -/
def typeText (raw : List Char) : Option String :=
  let body := Text.trim raw
  let body :=
    match Text.dropFront? ['-', '>'] body with
    | some rest => rest
    | none => (Text.dropFront? [':'] body).getD body
  let name := Text.trim (Text.dropEndWhile (fun c => c = ';' || c = ':' || c = '\x7b')
    (Text.trim body))
  if name.isEmpty then none else some (String.ofList (Text.singleSpaced name))

end CodeSurvey
