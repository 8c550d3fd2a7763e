-- ASCII names, as programming languages spell them, at the front of a text.
import CodeSurvey.Text.Blank

namespace CodeSurvey.Text

def isAsciiWord (c : Char) : Bool := c.isAlphanum || c = '_'

/-- An ASCII letter or underscore, with which a name begins. -/
def isNameStart (c : Char) : Bool := c.isAlpha || c = '_'

/-- The name in front of a text, and what follows it. -/
def takeName? : List Char → Option (List Char × List Char)
  | [] => none
  | c :: r =>
    if isNameStart c then some (c :: r.takeWhile isAsciiWord, r.dropWhile isAsciiWord) else none

/-- What follows a keyword and the blanks after it, of which there is at least
one. -/
def afterKeyword? (keyword s : List Char) : Option (List Char) :=
  match dropFront? keyword s with
  | some (c :: r) => if isBlank c then some (trimStart r) else none
  | _ => none

end CodeSurvey.Text
