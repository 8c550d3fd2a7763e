-- Patterns: the names that a declaration or a parameter binds.
import CodeSurvey.TypeScript.Grammar.Types

namespace CodeSurvey.TypeScript.Grammar

open Parse

/-- A pattern with a value that stands in when there is none. -/
def withDefault (r : Rules) (a : Parse Forest) : Parse Forest := do
  let left ← a
  if ← ask (·.sees "=") then
    let right ← symbol "=" ++ part .right (r .expression)
    pure (wrap .assignmentPattern (inField .left left ++ right))
  else pure left

/-- The rest of what is taken apart. -/
def restPattern (r : Rules) : Parse Forest := node .restPattern (symbol "..." ++ r .pattern)

/-- One property that an object pattern takes. -/
def propertyPattern (r : Rules) : Parse Forest := fun c =>
  if c.sees "..." then restPattern r c
  else (do
    let name ← propertyName r
    if ← ask (·.sees ":") then
      let value ← symbol ":" ++ withDefault r (r .pattern)
      pure (wrap (.other "pair_pattern") (name ++ value))
    else withDefault r (pure name)) c

/-- A pattern that takes properties of an object. -/
def objectPattern (r : Rules) : Parse Forest :=
  node .objectPattern (symbol "\x7b" ++ listed "\x7d" (propertyPattern r))

/-- A pattern that takes items of an array. -/
def arrayPattern (r : Rules) : Parse Forest :=
  node .arrayPattern (symbol "[" ++ listed "]" (look fun c =>
    if c.sees "..." then restPattern r else withDefault r (r .pattern)))

def pattern (r : Rules) : Parse Forest := fun c =>
  if c.sees "\x7b" then objectPattern r c
  else if c.sees "[" then arrayPattern r c
  else if c.sees "..." then restPattern r c
  else if c.seesWord "this" then anyName .this c
  else anyName .identifier c

end CodeSurvey.TypeScript.Grammar
