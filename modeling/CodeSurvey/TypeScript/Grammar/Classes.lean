-- Functions and classes: their bodies and members. They stand in expressions
-- as well as in declarations.
import CodeSurvey.TypeScript.Grammar.Patterns

namespace CodeSurvey.TypeScript.Grammar

open Parse

/-! ## Blocks and functions -/

def block (r : Rules) : Parse Forest :=
  node (.other "statement_block") (braced (orStray (r .statement)))

/-- A block as the body of something. -/
def body (r : Rules) : Parse Forest := part .body (block r)

/-- The words in front of a function, with the star of a generator. -/
def functionHead : Parse Forest :=
  when (·.seesWord "async") (keyword "async") ++ keyword "function" ++ when (·.sees "*") (symbol "*")

def functionAhead (c : Cursor) : Bool :=
  c.seesWord "function" || (c.seesWord "async" && c.afterWord.seesWord "function")

/-- The function that stands here is a generator. -/
def generatorAhead (c : Cursor) : Bool :=
  let c := if c.seesWord "async" then c.afterWord else c
  c.afterWord.sees "*"

def functionExpression (r : Rules) : Parse Forest := fun c =>
  let kind := if generatorAhead c then Kind.generatorFunction else Kind.functionExpression
  node kind (functionHead ++ when (!·.word.isEmpty) (part .name (anyName .identifier)) ++
    signature r ++ body r) c

/-! ## Members of classes -/

/-- Statements that run once for a class. -/
def staticBlock (r : Rules) : Parse Forest :=
  node (.other "class_static_block") (keyword "static" ++ body r)

/-- The rest of a method behind its name and mark: with a body it is a definition, and
without one a signature. -/
def methodRest (r : Rules) (front : Forest) : Parse Forest := do
  let called ← signature r
  if ← ask (·.sees "\x7b") then
    let stop ← body r
    let finish ← when (·.sees ";") (symbol ";")
    pure (wrap .methodDefinition (front ++ called ++ stop) ++ finish)
  else
    let finish ← endMember
    pure (wrap (.other "method_signature") (front ++ called) ++ finish)

/-- The rest of a field behind its name. -/
def fieldRest (r : Rules) (front : Forest) : Parse Forest := do
  let mark ← maybe (first [symbol "?", symbol "!"])
  let type ← when (·.sees ":") (part .type (typeAnnotated r))
  let value ← when (·.sees "=") (startValue r)
  let finish ← endMember
  pure (wrap (.other "public_field_definition") (front ++ mark ++ type ++ value) ++ finish)

def classMember (r : Rules) : Parse Forest := fun c =>
  if c.sees "@" then node .decorator (symbol "@" ++ r .unary) c
  else if c.sees ";" || c.sees "," then endMember c
  else if c.seesWord "static" && c.afterWord.sees "\x7b" then staticBlock r c
  else (do
    let before ← manyFit (first [memberModifier, symbol "*"])
    if ← ask indexAhead then
      let index ← indexSignature r
      let finish ← endMember
      pure (before ++ index ++ finish)
    else
      let name ← part .name (propertyName r)
      let optional_ ← ask (fun c => c.sees "?" && ((c.advance 1).sees "(" || (c.advance 1).sees "<"))
      if optional_ then
        let mark ← symbol "?"
        methodRest r (before ++ name ++ mark)
      else if ← ask (fun c => c.sees "(" || c.sees "<") then methodRest r (before ++ name)
      else fieldRest r (before ++ name)) c

/-! ## Classes -/

/-- The members of a class in braces. -/
def classBody (r : Rules) : Parse Forest :=
  node .classBody (braced (orStray (classMember r)))

/-- What a class extends, with type arguments. -/
def extendsClause (r : Rules) : Parse Forest :=
  node (.other "extends_clause") (keyword "extends" ++ one ++
    manyUntil (!·.sees ",") (symbol "," ++ one))
where
  /-- One value with type arguments. -/
  one : Parse Forest := part .value (r .unary) ++ typeArgumentsIfAny r

def implementsClause (r : Rules) : Parse Forest :=
  node (.other "implements_clause") (keyword "implements" ++ r .type ++
    manyUntil (!·.sees ",") (symbol "," ++ r .type))

def heritage (r : Rules) : Parse Forest :=
  node (.other "class_heritage") (when (·.seesWord "extends") (extendsClause r) ++
    when (·.seesWord "implements") (implementsClause r))

/-- A word that names the class stands here, and not one that says what it takes
over. -/
def classNameAhead (c : Cursor) : Bool :=
  !c.word.isEmpty && !(c.seesWord "extends" && !c.afterWord.sees "\x7b") &&
    !(c.seesWord "implements" && !c.afterWord.sees "\x7b")

/-- A class behind what stands before its name. -/
def classRest (r : Rules) : Parse Forest :=
  when classNameAhead (part .name (anyName (.other "type_identifier"))) ++
    typeParametersIfAny r ++ heritage r ++ part .body (classBody r)

def classExpression (r : Rules) : Parse Forest :=
  node .classExpression (decorators r ++ keyword "class" ++ classRest r)

end CodeSurvey.TypeScript.Grammar
