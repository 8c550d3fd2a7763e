-- Expressions of TypeScript. Operators are read from left to right without
-- their ranks, which no survey asks for.
import CodeSurvey.TypeScript.Grammar.Classes
import CodeSurvey.TypeScript.Grammar.Elements

namespace CodeSurvey.TypeScript.Grammar

open Parse

/-! ## Words -/

/-- The words that are no names of values. -/
def reservedWords : List String :=
  ["break", "case", "catch", "class", "const", "continue", "debugger", "default", "delete", "do",
    "else", "enum", "export", "extends", "finally", "for", "function", "if", "import", "in",
    "instanceof", "new", "return", "switch", "throw", "try", "typeof", "var", "void", "while",
    "with"]

/-- A name of a value stands here. -/
def nameAhead (c : Cursor) : Bool :=
  !c.word.isEmpty && !reservedWords.contains (String.ofList c.word)

def operandAhead (c : Cursor) : Bool :=
  (!c.word.isEmpty && !(["in", "of", "instanceof", "as", "satisfies"].contains (String.ofList c.word)))
    || numberAhead c ||
    ["(", "[", "\x7b", "\"", "'", "\x60", "+", "-", "!", "~", "/", "<", "#"].any c.sees

/-! ## Functions with an arrow -/

/-- The part of a function behind its arrow. -/
def arrowBody (r : Rules) : Parse Forest :=
  symbol "=>" ++ part .body (look fun c => if c.sees "\x7b" then block r else r .expression)

/-- A function with an arrow and one bare name as its parameter. -/
def bareArrow (r : Rules) : Parse Forest := part .parameter (anyName .identifier) ++ arrowBody r

/-- A function with an arrow and its parameters in parentheses. -/
def listArrow (r : Rules) : Parse Forest := signature r ++ arrowBody r

/-- One bare name with an arrow behind it stands here. -/
def bareArrowAhead (c : Cursor) : Bool := nameAhead c && c.afterWord.sees "=>"

/-- A function with an arrow where it is one, and otherwise what the second parser
reads. -/
def arrowOr (r : Rules) (front other : Parse Forest) (c : Cursor) : Parse Forest :=
  let arrow := node .arrowFunction (front ++ listArrow r)
  if c.sees "(" then
    if c.arrowBehind then arrow
    else if c.colonBehind then or arrow other
    else other
  else if c.sees "<" then or arrow other
  else other

/-! ## Primary expressions -/

def arguments (r : Rules) : Parse Forest :=
  node (.other "arguments") (symbol "(" ++ listed ")" (item r))
where
  /-- An expression, perhaps spread out. -/
  item (r : Rules) : Parse Forest := when (·.sees "...") (symbol "...") ++ r .expression

def array (r : Rules) : Parse Forest :=
  node (.other "array") (symbol "[" ++ listed "]" (arguments.item r))

def parenthesized (r : Rules) : Parse Forest :=
  node (.other "parenthesized_expression")
    (symbol "(" ++ sequence r ++ when (·.sees ":") (part .type (typeAnnotated r)) ++ symbol ")")

/-- The word stands before a method of an object. -/
def objectModifier : Parse Forest := look fun c =>
  if ["async", "get", "set"].contains (String.ofList c.word) &&
      (propertyNameAhead c.afterWord || c.afterWord.sees "*") then
    keyword (String.ofList c.word)
  else refuse

def objectMember (r : Rules) : Parse Forest := look fun c =>
  if c.sees "..." then node (.other "spread_element") (symbol "..." ++ r .expression)
  else do
    let before ← manyFit (first [objectModifier, symbol "*"])
    let name ← part .name (propertyName r)
    if ← ask (fun c => c.sees "(" || c.sees "<") then
      let rest ← signature r ++ body r
      pure (wrap .methodDefinition (before ++ name ++ rest))
    else if ← ask (·.sees ":") then
      let value ← symbol ":" ++ part .value (r .expression)
      pure (wrap (.other "pair") (name ++ value))
    else if ← ask (·.sees "=") then
      let value ← symbol "=" ++ r .expression
      pure (wrap (.other "object_assignment_pattern") (name ++ value))
    else pure name

def object (r : Rules) : Parse Forest :=
  node (.other "object") (symbol "\x7b" ++ listed "\x7d" (objectMember r))

/-- A primary expression that begins with a word. -/
def wordExpression (r : Rules) : Parse Forest := look fun c =>
  if functionAhead c then functionExpression r
  else if c.seesWord "class" then classExpression r
  else if c.seesWord "import" then
    if c.afterWord.sees "(" then take .importFunction true 6
    else if c.afterWord.sees "." then
      node (.other "meta_property") (keyword "import" ++ symbol "." ++ anyName .identifier)
    else refuse
  else if c.seesWord "this" then anyName .this
  else if ["super", "null", "true", "false", "undefined"].any c.seesWord then
    anyName (.other "constant")
  else if nameAhead c then anyName .identifier
  else refuse

/-- An expression that no operator applies to; that of a new object is not among
them. -/
def primary (r : Rules) : Parse Forest := look fun c =>
  match c.rest with
  | [] => refuse
  | '(' :: _ => parenthesized r
  | '[' :: _ => array r
  | '\x7b' :: _ => object r
  | '"' :: _ => string
  | '\'' :: _ => string
  | '/' :: _ => regex
  | '@' :: _ => classExpression r
  | '#' :: _ => propertyName r
  | '<' :: _ => if c.elements then settledElement r else refuse
  | h :: _ =>
    if h.toNat = 0x60 then template "template_string" (sequence r)
    else if numberAhead c then number
    else wordExpression r

/-! ## Members and calls -/

/-- The text behind type arguments allows them to be such. -/
def afterTypeArguments (c : Cursor) : Bool :=
  c.atEnd || c.newline || c.seesWord "implements" ||
    ["(", "\x60", ")", "]", "\x7b", "\x7d", ":", ";", ",", ".", "?", "=", "!", "&", "|", "^"].any
      c.sees

def appliedTypes (r : Rules) : Parse Forest := do
  let types ← typeArguments r
  guardHere afterTypeArguments
  pure types

def memberName (r : Rules) : Parse Forest := look fun c =>
  if c.sees "#" then propertyName r else anyName (.other "property_identifier")

/-- The value with a member of it. -/
def memberOf (value mark name : Forest) : Forest :=
  wrap (.other "member_expression") (value ++ mark ++ name)

def callOf (value mark arguments : Forest) : Forest :=
  wrap .callExpression (inField .function value ++ mark ++ inField .arguments arguments)

def chainMark : Parse Forest := look fun c =>
  if c.sees "?." then take .optionalChain true 2 else refuse

/-- An optional chain goes on here: the mark is not that of a choice with a number. -/
def chainAhead (c : Cursor) : Bool :=
  c.sees "?." && !((c.rest.drop 2).head?.map Char.isDigit).getD false

/-- An item of the value by its index, behind a mark. -/
def itemOf (r : Rules) (value mark : Forest) : Parse (Option Forest) := do
  let index ← symbol "[" ++ sequence r ++ symbol "]"
  pure (some (wrap (.other "subscript_expression") (value ++ mark ++ index)))

/-- One more step from a value to a member, an item, or the result of a call. Calls are left
out where `calls` is not set. -/
def stepFrom (r : Rules) (calls : Bool) (value : Forest) : Parse (Option Forest) := fun c =>
  if chainAhead c && calls then
    let after := c.advance 2
    if after.sees "(" then
      (do
        let mark ← symbol "?."
        let given ← arguments r
        pure (some (callOf value mark given))) c
    else if after.sees "<" then
      (do
        let mark ← symbol "?." ++ typeArguments r
        let given ← arguments r
        pure (some (callOf value mark given))) c
    else if after.sees "[" then (do itemOf r value (← chainMark)) c
    else
      (do
        let mark ← chainMark
        let name ← memberName r
        pure (some (memberOf value mark name))) c
  else if c.sees "." && !c.sees "..." then
    (do
      let mark ← symbol "."
      let name ← memberName r
      pure (some (memberOf value mark name))) c
  else if c.sees "[" then itemOf r value [] c
  else if c.sees "(" && calls then
    (do
      let given ← arguments r
      pure (some (callOf value [] given))) c
  else if c.sees "\x60" then
    (do
      let given ← template "template_string" (sequence r)
      pure (some (callOf value [] given))) c
  else if c.sees "!" && !c.sees "!=" && !c.newline && calls then
    (do
      let mark ← symbol "!"
      pure (some (wrap (.other "non_null_expression") (value ++ mark)))) c
  else if c.sees "<" && calls then
    or (do
      let types ← appliedTypes r
      if ← ask (·.sees "(") then
        let given ← arguments r
        pure (some (callOf value types given))
      else pure (some (wrap (.other "instantiation_expression") (value ++ types))))
      (pure none) c
  else some (none, c)

/-- The value with all steps that follow it, at most `fuel`. -/
def chainFrom (r : Rules) (calls : Bool) : Nat → Forest → Parse Forest
  | 0, value => pure value
  | fuel + 1, value => do
    match ← stepFrom r calls value with
    | some value => chainFrom r calls fuel value
    | none => pure value

/-- The value with all steps that follow it. -/
def chain (r : Rules) (calls : Bool) (value : Forest) : Parse Forest := look fun c =>
  chainFrom r calls (c.left + 1) value

/-- A new object, or the target of the word for it. -/
def newExpression (r : Rules) : Parse Forest :=
  node (.other "new_expression") (keyword "new" ++ look fun c =>
    if c.sees "." then symbol "." ++ anyName .identifier
    else if c.seesWord "new" then r .unary
    else do
      let made ← chain r false (← primary r)
      let types ← when (·.sees "<") (or (appliedTypes r) (pure []))
      let given ← when (·.sees "(") (arguments r)
      pure (made ++ types ++ given))

/-- An operand with its members and calls. -/
def operand (r : Rules) : Parse Forest := do
  let value ← look fun c => if c.seesWord "new" then newExpression r else primary r
  chain r true value

/-! ## Operators -/

/-- The signs that stand before an operand. -/
def prefixSigns : List String := ["++", "--", "!", "~", "+", "-"]

/-- The words that stand before an operand. -/
def operandWords : List String := ["typeof", "void", "delete"]

/-- An operand with the operators that apply to it alone. -/
def unary (r : Rules) : Parse Forest := look fun c =>
  match prefixSigns.find? c.sees with
  | some sign => node (.other "unary_expression") (symbol sign ++ r .unary)
  | none =>
    if operandWords.any c.seesWord || (c.seesWord "await" && operandAhead c.afterWord) then
      node (.other "unary_expression") (keyword (String.ofList c.word) ++ r .unary)
    else if c.sees "<" && !c.elements then
      node (.other "type_assertion") (typeArguments r ++ r .unary)
    else do
      let value ← operand r
      let sign ← when (!·.newline) (maybe (first [symbol "++", symbol "--"]))
      pure (if sign.isEmpty then value else wrap (.other "update_expression") (value ++ sign))

/-- The signs that give a value to what stands before them. -/
def assignmentSigns : List String :=
  [">>>=", "**=", "<<=", ">>=", "&&=", "||=", "??=", "+=", "-=", "*=", "/=", "%=", "&=", "|=", "^="]

def binarySigns : List String :=
  ["===", "!==", ">>>", "==", "!=", "<=", ">=", "&&", "||", "??", "<<", ">>", "**", "+", "-", "*",
    "/", "%", "&", "|", "^", "<", ">"]

/-- The text goes on with the sign of an assignment. -/
def assignmentAhead (c : Cursor) : Option String :=
  match assignmentSigns.find? c.sees with
  | some s => some s
  | none =>
    if c.sees "=" && !c.sees "==" && !c.sees "=>" then some "=" else none

/-- An operator and what stands on its right. -/
def operatorTail (r : Rules) : Parse (Option Forest) := fun c =>
  if c.sees "?" && !c.sees "??" && !chainAhead c then
    (some <$> choice) c
  else if (c.seesWord "as" || c.seesWord "satisfies") && !c.newline then
    (some <$> (keyword (String.ofList c.word) ++ r .type)) c
  else if c.seesWord "in" || c.seesWord "instanceof" then
    (some <$> (keyword (String.ofList c.word) ++ r .unary)) c
  else match assignmentAhead c with
  | some s => (some <$> (symbol s ++ r .expression)) c
  | none =>
    if c.sees "=>" || ((c.sees "++" || c.sees "--") && c.newline) then some (none, c)
    else match binarySigns.find? c.sees with
    | some s => (some <$> (symbol s ++ r .unary)) c
    | none => some (none, c)
where
  /-- The two values of a choice. The colon between them may look like the one in front of the
  type of a function's result. -/
  choice : Parse Forest :=
    symbol "?" ++ or (r .expression ++ symbol ":" ++ r .expression)
      (r .operation ++ symbol ":" ++ r .expression)

def operation (r : Rules) : Parse Forest := do
  let value ← unary r
  let tail ← many (operatorTail r)
  pure (if tail.isEmpty then value else wrap (.other "binary_expression") (value ++ tail))

def yieldExpression (r : Rules) : Parse Forest :=
  node (.other "yield_expression") (keyword "yield" ++ maybe (symbol "*") ++
    when (fun c => operandAhead c && !c.newline) (r .expression))

def expression (r : Rules) : Parse Forest := look fun c =>
  let async := c.afterWord
  if bareArrowAhead c then node .arrowFunction (bareArrow r)
  else if c.seesWord "async" && !async.newline && !functionAhead c then
    if bareArrowAhead async then node .arrowFunction (keyword "async" ++ bareArrow r)
    else arrowOr r (keyword "async") (operation r) async
  else if c.seesWord "yield" then yieldExpression r
  else arrowOr r (pure []) (operation r) c

end CodeSurvey.TypeScript.Grammar
