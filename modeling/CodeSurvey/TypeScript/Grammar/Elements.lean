-- Elements in angle brackets: their attributes, and the text, holes and
-- elements between their tags.
import CodeSurvey.TypeScript.Grammar.Types

namespace CodeSurvey.TypeScript.Grammar

open Parse

/-- The cursor moves to the next token. -/
def settle (parts : Forest) : Parse Forest := fun c =>
  let next := Cursor.settle c.elements c.tolerance c.rest c.mark c.left
  some (parts, { next with comments := c.comments ++ next.comments })

/-- An element, after which tokens go on. -/
def settledElement (r : Rules) : Parse Forest := do settle (← r .element)

/-- The name of an element or attribute: words, with hyphens, colons and points. -/
def elementName : Parse Forest := fun c =>
  let n := (c.rest.takeWhile (fun h => isNameChar h || h = '-' || h = ':' || h = '.')).length
  if c.word.isEmpty then none else take (.other "jsx_identifier") true n c

def sequence (r : Rules) : Parse Forest :=
  r .expression ++ manyUntil (!·.sees ",") (symbol "," ++ r .expression)

/-- What stands in the braces of a hole: nothing, a spread, or expressions. -/
def holeContent (r : Rules) : Parse Forest := look fun c =>
  if c.sees "\x7d" then pure []
  else if c.sees "..." then symbol "..." ++ r .expression
  else sequence r

def elementAttribute (r : Rules) : Parse Forest := look fun c =>
  if c.sees "\x7b" then
    node (.other "jsx_expression") (symbol "\x7b" ++ holeContent r ++ symbol "\x7d")
  else
    node (.other "jsx_attribute") (elementName ++ when (·.sees "=") (symbol "=" ++ look fun c =>
      if c.sees "\x7b" then
        node (.other "jsx_expression") (symbol "\x7b" ++ holeContent r ++ symbol "\x7d")
      else if c.sees "<" then settledElement r
      else attributeString))

/-- A mark after which the characters are taken as they are. -/
def rawSymbol (s : String) : Parse Forest := fun c =>
  if c.sees s then takeRaw (.word s) false s.length c else none

/-- The number of characters up to the next tag or hole, added to `seen`. -/
def elementTextRun (seen : Nat) : List Char → Nat
  | [] => seen
  | c :: r => if c = '<' || c = '\x7b' then seen else elementTextRun (seen + 1) r

def elementContent (r : Rules) : Parse Forest :=
  many (do
    let text ← rawRun "jsx_text" (elementTextRun 0)
    if ← ask (fun c => c.sees "</") then
      pure (if text.isEmpty then none else some text)
    else if ← ask (·.sees "<") then
      let inner ← r .element
      pure (some (text ++ inner))
    else
      let inner ← node (.other "jsx_expression")
        (symbol "\x7b" ++ holeContent r ++ rawSymbol "\x7d")
      pure (some (text ++ inner)))

/-- The tag behind the content of an element. -/
def closingTag : Parse Forest :=
  node (.other "jsx_closing_element")
    (symbol "<" ++ symbol "/" ++ when (!·.sees ">") elementName ++ rawSymbol ">")

/-- An element or a fragment. The characters after it are left as they are. -/
def element (r : Rules) : Parse Forest := do
  let front ← symbol "<" ++ when (!·.sees ">")
    (elementName ++ typeArgumentsIfAny r ++
      manyUntil (fun c => c.sees ">" || c.sees "/") (elementAttribute r))
  if ← ask (·.sees "/") then
    let close ← symbol "/" ++ rawSymbol ">"
    pure (wrap .jsxSelfClosingElement (front ++ close))
  else
    let close ← rawSymbol ">"
    let inner ← elementContent r ++ closingTag
    pure (wrap .jsxElement (wrap (.other "jsx_opening_element") (front ++ close) ++ inner))

end CodeSurvey.TypeScript.Grammar
