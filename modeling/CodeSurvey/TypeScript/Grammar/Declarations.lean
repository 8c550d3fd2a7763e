-- Declarations: of values, functions, classes and types, and of what is
-- declared elsewhere.
import CodeSurvey.TypeScript.Grammar.Expressions

namespace CodeSurvey.TypeScript.Grammar

open Parse

/-! ## Values -/

/-- One declared name or pattern with its type and value. -/
def declarator (r : Rules) : Parse Forest :=
  node .variableDeclarator (part .name (r .pattern) ++ when (·.sees "!") (symbol "!") ++
    when (·.sees ":") (part .type (typeAnnotated r)) ++ when (·.sees "=") (startValue r))

/-- The words that declare values, with the kind of the declaration. -/
def valueWords : List (String × Kind) :=
  [("let", .lexicalDeclaration), ("const", .lexicalDeclaration), ("var", .variableDeclaration)]

/-- The word that declares values here, with the kind of the declaration. `let` is also a
name: it declares only where something to declare follows. -/
def valueAhead? (c : Cursor) : Option (String × Kind) :=
  (valueWords.find? (fun w => c.seesWord w.1)).filter (fun _ =>
    patternStarts c.afterWord && !c.afterWord.seesWord "in" && !c.afterWord.seesWord "instanceof")

def valueDeclaration (r : Rules) (word : String) (kind : Kind) : Parse Forest :=
  node kind (keyword word ++ declarator r ++
    manyUntil (!·.sees ",") (symbol "," ++ declarator r) ++ endStatement)

/-! ## Functions and classes -/

/-- A function with a name. Without a body it is only a signature. -/
def functionDeclaration (r : Rules) : Parse Forest := do
  let generator ← ask generatorAhead
  let front ← functionHead ++ part .name (anyName .identifier) ++ signature r
  if ← ask (·.sees "\x7b") then
    let stop ← body r
    let kind := if generator then Kind.generatorFunctionDeclaration else Kind.functionDeclaration
    pure (wrap kind (front ++ stop))
  else
    let stop ← endStatement
    pure (wrap (.other "function_signature") (front ++ stop))

/-- A function with a name stands here. -/
def namedFunctionAhead (c : Cursor) : Bool :=
  let c := if c.seesWord "async" && !c.afterWord.newline then c.afterWord else c
  c.seesWord "function" &&
    let after := c.afterWord
    !(if after.sees "*" then after.advance 1 else after).word.isEmpty

/-- A class stands here, behind what decorates it, with the word that makes it abstract or
without. -/
def classAhead (c : Cursor) : Bool :=
  c.seesWord "class" || (c.seesWord "abstract" && c.afterWord.seesWord "class")

/-- A class with a name stands here. -/
def namedClassAhead (c : Cursor) : Bool :=
  classAhead c && classNameAhead (if c.seesWord "class" then c.afterWord else c.afterWord.afterWord)

/-- A class with a name, behind what decorates it. -/
def classDeclaration (r : Rules) (decorated : Forest) : Parse Forest := look fun c =>
  if c.seesWord "abstract" then
    wrap .abstractClassDeclaration <$>
      (pure decorated ++ keyword "abstract" ++ keyword "class" ++ classRest r)
  else wrap .classDeclaration <$> (pure decorated ++ keyword "class" ++ classRest r)

/-! ## Types -/

def typeName : Parse Forest := part .name (anyName (.other "type_identifier"))

def interfaceDeclaration (r : Rules) : Parse Forest :=
  node .interfaceDeclaration (keyword "interface" ++ typeName ++ typeParametersIfAny r ++
    when (·.seesWord "extends") (node (.other "extends_type_clause")
      (keyword "extends" ++ r .type ++ manyUntil (!·.sees ",") (symbol "," ++ r .type))) ++
    part .body (objectType r))

/-- A name that stands for a type. -/
def typeAliasDeclaration (r : Rules) : Parse Forest :=
  node .typeAliasDeclaration (keyword "type" ++ typeName ++ typeParametersIfAny r ++ symbol "=" ++
    part .value (r .type) ++ endStatement)

/-- A name that stands for a type is declared here. -/
def typeAliasAhead (c : Cursor) : Bool :=
  c.seesWord "type" &&
    let name := c.afterWord
    !name.word.isEmpty && !name.newline && (name.afterWord.sees "=" || name.afterWord.sees "<")

def enumMember (r : Rules) : Parse Forest :=
  propertyName r ++ when (·.sees "=") (symbol "=" ++ r .expression)

def enumDeclaration (r : Rules) : Parse Forest :=
  node (.other "enum_declaration") (when (·.seesWord "const") (keyword "const") ++ keyword "enum" ++
    part .name (anyName .identifier) ++
    part .body (node (.other "enum_body") (symbol "\x7b" ++ listed "\x7d" (enumMember r))))

def enumAhead (c : Cursor) : Bool :=
  c.seesWord "enum" || (c.seesWord "const" && c.afterWord.seesWord "enum")

/-! ## Modules -/

def moduleWords : List String := ["namespace", "module"]

/-- A module stands here: its name is on the line of the word, and what follows that goes on
with the module. -/
def moduleAhead (c : Cursor) : Bool :=
  moduleWords.any c.seesWord &&
    let name := c.afterWord
    !name.newline && (name.sees "\"" || name.sees "'" ||
      (!name.word.isEmpty && (name.afterWord.sees "\x7b" || name.afterWord.sees ".")))

/-- A module with the declarations in it. -/
def moduleDeclaration (r : Rules) : Parse Forest := look fun c =>
  let name := look fun c =>
    if c.sees "\"" || c.sees "'" then string
    else wrap (.other "nested_identifier") <$> (anyName .identifier ++ nameTail)
  node (.other "module") (keyword (String.ofList c.word) ++ part .name name ++
    look fun c => if c.sees "\x7b" then body r else endStatement)

/-! ## Imported names -/

/-- A name for another module, or for something in a namespace. -/
def importAlias : Parse Forest :=
  node (.other "import_alias") (keyword "import" ++ when typeBefore (keyword "type") ++
    anyName .identifier ++ symbol "=" ++ meant ++ endStatement)
where
  /-- The word says that only a type is meant. -/
  typeBefore (c : Cursor) : Bool := c.seesWord "type" && !c.afterWord.sees "="
  /-- What the name is for. -/
  meant : Parse Forest := look fun c =>
    if c.seesWord "require" && c.afterWord.sees "(" then
      keyword "require" ++ symbol "(" ++ string ++ symbol ")"
    else wrap (.other "nested_identifier") <$> (anyName .identifier ++ nameTail)

/-- A name for something elsewhere stands here. -/
def importAliasAhead (c : Cursor) : Bool :=
  c.seesWord "import" &&
    let name := c.afterWord
    !name.word.isEmpty &&
      (name.afterWord.sees "=" || (name.seesWord "type" && name.afterWord.afterWord.sees "="))

/-! ## Declarations -/

/-- A word that says that the rest is declared elsewhere. -/
def declaredAhead (c : Cursor) : Bool :=
  c.seesWord "declare" && !c.afterWord.newline && !c.afterWord.word.isEmpty &&
    !(["in", "instanceof", "as", "satisfies", "of"].any c.afterWord.seesWord)

/-- A declaration that begins here with none of the words for what is declared elsewhere;
nothing where no declaration begins. -/
def plainDeclaration? (r : Rules) (c : Cursor) : Option (Parse Forest) :=
  if namedFunctionAhead c then some (functionDeclaration r)
  else if namedClassAhead c then some (classDeclaration r [])
  else if c.seesWord "interface" && !c.afterWord.word.isEmpty && !c.afterWord.newline then
    some (interfaceDeclaration r)
  else if typeAliasAhead c then some (typeAliasDeclaration r)
  else if enumAhead c then some (enumDeclaration r)
  else if moduleAhead c then some (moduleDeclaration r)
  else if importAliasAhead c then some importAlias
  else (valueAhead? c).map (fun w => valueDeclaration r w.1 w.2)

def ambientDeclaration (r : Rules) : Parse Forest :=
  node (.other "ambient_declaration") (keyword "declare" ++ look fun c =>
    if c.seesWord "global" then keyword "global" ++ block r
    else (plainDeclaration? r c).getD refuse)

/-- A declaration that begins here; nothing where none begins. -/
def declaration? (r : Rules) (c : Cursor) : Option (Parse Forest) :=
  if declaredAhead c then some (ambientDeclaration r) else plainDeclaration? r c

end CodeSurvey.TypeScript.Grammar
