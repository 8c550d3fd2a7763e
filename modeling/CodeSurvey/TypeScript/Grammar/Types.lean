-- Types of TypeScript, and what is written with them: type parameters and
-- arguments, and the types behind a colon.
import CodeSurvey.TypeScript.Grammar.Literals

namespace CodeSurvey.TypeScript.Grammar

open Parse

/-! ## Lists of types -/

/-- Types between angle brackets, to which something is applied. -/
def typeArguments (r : Rules) : Parse Forest :=
  node .typeArguments (symbol "<" ++ listed ">" (r .type))

/-- One type parameter with its bound and its default. -/
def typeParameter (r : Rules) : Parse Forest := fun c =>
  let marked := ["const", "in", "out"].contains (String.ofList c.word) &&
    !c.afterWord.word.isEmpty && !c.afterWord.seesWord "extends"
  if marked then (node (.other "modifier") (anyName .identifier) ++ bounded) c else bounded c
where
  /-- The name, the bound and the default. -/
  bounded : Parse Forest :=
    node (.other "type_parameter") (anyName (.other "type_identifier") ++
      maybe (node (.other "constraint") (keyword "extends" ++ r .type)) ++
      maybe (node (.other "default_type") (symbol "=" ++ r .type)))

def typeParameters (r : Rules) : Parse Forest :=
  node .typeParameters (symbol "<" ++ many (fun c =>
    if c.sees ">" then some (none, c)
    else if c.sees "," then (some <$> symbol ",") c
    else if c.word.isEmpty then none
    else (some <$> typeParameter r) c) ++ symbol ">")

/-! ## Types behind a colon -/

def typeAnnotated (r : Rules) : Parse Forest := node .typeAnnotated (symbol ":" ++ r .type)

/-- The name of a parameter and the type that a call proves of it. -/
def predicate (r : Rules) : Parse Forest :=
  anyName .identifier ++ keyword "is" ++ r .type

/-- A function proves something of a parameter when it returns. -/
def assertion (r : Rules) : Parse Forest :=
  node (.other "asserts") (keyword "asserts" ++ look fun c =>
    if c.afterWord.seesWord "is" then node (.other "type_predicate") (predicate r)
    else anyName .identifier)

/-- A proof about a parameter stands here. -/
def assertionAhead (c : Cursor) : Bool := c.seesWord "asserts" && !c.afterWord.word.isEmpty

/-- A predicate about a parameter stands here. -/
def predicateAhead (c : Cursor) : Bool :=
  !c.word.isEmpty && c.afterWord.seesWord "is" && !c.afterWord.newline

/-- What a function returns, behind a colon. -/
def returnAnnotated (r : Rules) : Parse Forest := fun c =>
  if !c.sees ":" then none
  else
    let after := c.advance 1
    if assertionAhead after then
      part .returnType (node (.other "asserts_annotation") (symbol ":" ++ assertion r)) c
    else if predicateAhead after then
      part .returnType (node (.other "type_predicate_annotation")
        (symbol ":" ++ node (.other "type_predicate") (predicate r))) c
    else part .returnType (typeAnnotated r) c

/-- What a function type returns, behind an arrow. -/
def returned (r : Rules) : Parse Forest := fun c =>
  if assertionAhead c then assertion r c
  else if predicateAhead c then node (.other "type_predicate") (predicate r) c
  else r .type c

/-! ## Signatures -/

/-- The words that may stand before the name of a parameter. -/
def parameterModifiers : List String := ["public", "private", "protected", "override", "readonly"]

/-- The characters with which the name or the pattern of a parameter begins. -/
def patternStarts (c : Cursor) : Bool :=
  !c.word.isEmpty || c.sees "\x7b" || c.sees "[" || c.sees "..."

def parameterModifier : Parse Forest := fun c =>
  let word := String.ofList c.word
  if parameterModifiers.contains word && patternStarts c.afterWord then
    if ["public", "private", "protected"].contains word then
      node .accessibilityModifier (keyword word) c
    else keyword word c
  else none

def decorators (r : Rules) : Parse Forest :=
  manyUntil (!·.sees "@") (node .decorator (symbol "@" ++ r .unary))

def startValue (r : Rules) : Parse Forest := symbol "=" ++ part .value (r .expression)

def parameter (r : Rules) : Parse Forest := do
  let before ← decorators r ++ manyFit parameterModifier
  let name ← part .pattern (r .pattern)
  let mark ← maybe (symbol "?")
  let type ← maybe (part .type (typeAnnotated r))
  let value ← when (·.sees "=") (startValue r)
  let kind := if mark.isEmpty then Kind.requiredParameter else Kind.optionalParameter
  pure (wrap kind (before ++ name ++ mark ++ type ++ value))

/-- The parameters of a function in their parentheses. -/
def formalParameters (r : Rules) : Parse Forest :=
  node (.other "formal_parameters") (symbol "(" ++ listed ")" (parameter r))

def typeParametersIfAny (r : Rules) : Parse Forest := when (·.sees "<") (typeParameters r)

/-- Type parameters, parameters, and what a call returns. -/
def signature (r : Rules) : Parse Forest :=
  typeParametersIfAny r ++ part .parameters (formalParameters r) ++
    when (·.sees ":") (returnAnnotated r)

/-! ## Object types -/

/-- The name of a property: a word, a private name, a string, a number, or an expression
in brackets. -/
def propertyName (r : Rules) : Parse Forest := fun c =>
  if c.sees "[" then
    node (.other "computed_property_name") (symbol "[" ++ r .expression ++ symbol "]") c
  else if c.sees "\"" || c.sees "'" then string c
  else if numberAhead c then number c
  else if c.sees "#" then
    take (.other "private_property_identifier") true
      ((c.rest.tail.takeWhile isNameChar).length + 1) c
  else anyName (.other "property_identifier") c

/-- The text goes on with the name of a property. -/
def propertyNameAhead (c : Cursor) : Bool :=
  !c.word.isEmpty || c.sees "[" || c.sees "\"" || c.sees "'" || c.sees "#" || numberAhead c

/-- A name between brackets with what makes it an index. -/
def indexAhead (c : Cursor) : Bool :=
  c.sees "[" &&
    let name := c.advance 1
    !name.word.isEmpty && (name.afterWord.sees ":" || name.afterWord.seesWord "in")

def indexBrackets (r : Rules) : Parse Forest :=
  symbol "[" ++ anyName .identifier ++ (look fun c =>
    if c.sees ":" then symbol ":" ++ r .type
    else keyword "in" ++ r .type ++ maybe (keyword "as" ++ r .type)) ++ symbol "]"

/-- What stands behind the brackets: a type, or a sign that makes the index optional or
not, with a type. -/
def indexResult (r : Rules) : Parse Forest := fun c =>
  if c.sees ":" then typeAnnotated r c
  else if c.sees "?" || c.sees "-" || c.sees "+" then
    node (.other "opting_type_annotation")
      (maybe (first [symbol "-", symbol "+"]) ++ symbol "?" ++ maybe (symbol ":" ++ r .type)) c
  else some ([], c)

/-- An index signature, or the clause of a mapped type. -/
def indexSignature (r : Rules) : Parse Forest :=
  node (.other "index_signature") (indexBrackets r ++ indexResult r)

/-- The words that may stand before a member of an object type. -/
def memberModifiers : List String :=
  ["public", "private", "protected", "static", "override", "readonly", "async", "get", "set",
    "abstract", "declare", "accessor"]

/-- The word modifies what follows it: it is one of the modifiers, and on the same line
follows the name of a property or another sign of a member. -/
def modifierAhead (modifiers : List String) (c : Cursor) : Bool :=
  modifiers.contains (String.ofList c.word) &&
    let after := c.afterWord
    !after.mayEnd && (propertyNameAhead after || after.sees "*")

def memberModifier : Parse Forest := fun c =>
  if modifierAhead memberModifiers c then
    if ["public", "private", "protected"].contains (String.ofList c.word) then
      node .accessibilityModifier (anyName (.other "modifier")) c
    else keyword (String.ofList c.word) c
  else none

def typeMember (r : Rules) : Parse Forest := fun c =>
  if c.sees "(" || c.sees "<" then node (.other "call_signature") (signature r) c
  else if c.seesWord "new" && (c.afterWord.sees "(" || c.afterWord.sees "<") then
    node (.other "construct_signature") (keyword "new" ++ signature r) c
  else (do
    let before ← manyFit (first [memberModifier, symbol "*", symbol "+", symbol "-"])
    if ← ask indexAhead then
      let index ← indexSignature r
      pure (before ++ index)
    else
      let name ← part .name (propertyName r)
      let mark ← maybe (symbol "?")
      if ← ask (fun c => c.sees "(" || c.sees "<") then
        let rest ← signature r
        pure (wrap (.other "method_signature") (before ++ name ++ mark ++ rest))
      else
        let type ← maybe (part .type (typeAnnotated r))
        pure (wrap (.other "property_signature") (before ++ name ++ mark ++ type))) c

/-- The end of a member: a semicolon, a comma, or a place where neither is needed. -/
def endMember : Parse Forest := fun c =>
  if c.sees "," then symbol "," c else endStatement c

def objectType (r : Rules) : Parse Forest :=
  node (.other "object_type") (braced fun c =>
    if c.sees "," || c.sees ";" then endMember c else (typeMember r ++ endMember) c)

/-! ## Types -/

def importedType (r : Rules) : Parse Forest := do
  let function ← part .function (fun c => take .importFunction true 6 c)
  let arguments ← part .arguments
    (node (.other "arguments") (symbol "(" ++ listed ")" (r .expression)))
  pure (wrap .callExpression (function ++ arguments))

/-- The names behind the points that follow. -/
def nameTail : Parse Forest := manyUntil (!·.sees ".") (symbol "." ++ anyName .identifier)

def typeArgumentsIfAny (r : Rules) : Parse Forest := when (·.sees "<") (typeArguments r)

def namedType (r : Rules) : Parse Forest :=
  node (.other "generic_type") ((look fun c =>
    if c.seesWord "import" && c.afterWord.sees "(" then importedType r
    else anyName (.other "type_identifier")) ++ nameTail ++ typeArgumentsIfAny r)

def typeQuery (r : Rules) : Parse Forest :=
  node (.other "type_query") (keyword "typeof" ++ namedType r)

def tupleMember (r : Rules) : Parse Forest := fun c =>
  let rest := if c.sees "..." then c.advance 3 else c
  let labelled := !rest.word.isEmpty &&
    (rest.afterWord.sees ":" || (rest.afterWord.sees "?" && (rest.afterWord.advance 1).sees ":"))
  let dots : Parse Forest := maybe (symbol "...")
  if labelled then
    node (.other "tuple_parameter")
      (dots ++ anyName .identifier ++ maybe (symbol "?") ++ typeAnnotated r) c
  else (dots ++ r .type ++ maybe (symbol "?")) c

/-- A type that no operator applies to. -/
def primaryType (r : Rules) : Parse Forest := fun c =>
  match c.rest with
  | '(' :: _ => node (.other "parenthesized_type") (symbol "(" ++ r .type ++ symbol ")") c
  | '\x7b' :: _ => objectType r c
  | '[' :: _ => node (.other "tuple_type") (symbol "[" ++ listed "]" (tupleMember r)) c
  | '"' :: _ => string c
  | '\'' :: _ => string c
  | '-' :: _ => (symbol "-" ++ number) c
  | '*' :: _ => symbol "*" c
  | '?' :: _ => (symbol "?" ++ r .type) c
  | h :: _ =>
    if h.toNat = 0x60 then template "template_literal_type" (r .type) c
    else if numberAhead c then number c
    else if c.seesWord "typeof" then typeQuery r c
    else namedType r c
  | [] => none

/-- A type and the brackets behind it, on its line, that make it an array or look something
up in it. -/
def postfixType (r : Rules) : Parse Forest := do
  let base ← primaryType r
  let tails ← manyUntil (fun c => c.newline || !c.sees "[")
    (symbol "[" ++ when (!·.sees "]") (r .type) ++ symbol "]")
  pure (if tails.isEmpty then base else wrap (.other "array_type") (base ++ tails))

/-- The words that apply to a type. -/
def typeOperators : List String := ["keyof", "unique", "readonly"]

/-- The text goes on with a type. -/
def typeAhead (c : Cursor) : Bool :=
  !c.newline && (!c.word.isEmpty || c.sees "(" || c.sees "[" || c.sees "\x7b" || c.sees "\"" ||
    c.sees "'" || c.sees "\x60" || numberAhead c)

/-- A type with the operators before it. -/
def operatorType (r : Rules) : Parse Forest := do
  let operators ← manyFit (fun c =>
    if typeOperators.contains (String.ofList c.word) && typeAhead c.afterWord then
      keyword (String.ofList c.word) c
    else none)
  let type ← fun c =>
    if c.seesWord "infer" && !c.afterWord.word.isEmpty then
      node (.other "infer_type") (keyword "infer" ++ anyName (.other "type_identifier") ++
        maybe (keyword "extends" ++ r .type)) c
    else postfixType r c
  pure (operators ++ type)

/-- Types with a mark between them, that may also stand before the first. -/
def markedTypes (mark : String) (one : Parse Forest) : Parse Forest :=
  maybe (symbol mark) ++ one ++ manyUntil (!·.sees mark) (symbol mark ++ one)

def unionType (r : Rules) : Parse Forest := markedTypes "|" (markedTypes "&" (operatorType r))

def functionType (r : Rules) : Parse Forest :=
  node (.other "function_type")
    (typeParametersIfAny r ++ formalParameters r ++ symbol "=>" ++ returned r)

def constructorType (r : Rules) : Parse Forest :=
  node (.other "constructor_type") (maybe (keyword "abstract") ++ keyword "new" ++ functionType r)

/-- A union, or a choice that hangs on what one extends. -/
def conditionalType (r : Rules) : Parse Forest := do
  let checked ← unionType r
  if ← ask (fun c => c.seesWord "extends" && !c.newline) then
    (fun rest => wrap (.other "conditional_type") (checked ++ rest)) <$>
      (keyword "extends" ++ r .type ++ symbol "?" ++ r .type ++ symbol ":" ++ r .type)
  else pure checked

def constructorAhead (c : Cursor) : Bool :=
  c.seesWord "new" || (c.seesWord "abstract" && c.afterWord.seesWord "new")

def type (r : Rules) : Parse Forest := fun c =>
  if c.sees "<" || (c.sees "(" && c.arrowBehind) then functionType r c
  else if constructorAhead c then constructorType r c
  else conditionalType r c

end CodeSurvey.TypeScript.Grammar
