-- Cutting a text at a separator, except where the separator stands inside
-- brackets or quotes.

namespace CodeSurvey.Text

/-- Where a reader of nested text stands: the open quote, with whether the last
character was a backslash, and the number of open brackets. That number has no
bound; a signed word of 32 bits holds the same until `2 ^ 31` brackets are open. -/
structure Nesting where
  quote : Option Char
  escaped : Bool
  depth : Nat
deriving DecidableEq, Repr

def Nesting.outside : Nesting := ⟨none, false, 0⟩

/-- The marks that open a quote, and close it again. -/
def isQuoteMark (c : Char) : Bool := c = '"' || c = '\'' || c.toNat = 0x60

def isOpening (c : Char) : Bool := c = '(' || c = '[' || c = '\x7b' || c = '<'

def isClosing (c : Char) : Bool := c = ')' || c = ']' || c = '\x7d' || c = '>'

/-- One character further. A closing bracket without its opening one changes
nothing, and brackets are not matched by kind. -/
def Nesting.next (n : Nesting) (c : Char) : Nesting :=
  match n.quote with
  | some q =>
    if n.escaped then { n with escaped := false }
    else if c = '\\' then { n with escaped := true }
    else if c = q then { n with quote := none }
    else n
  | none =>
    if isQuoteMark c then { n with quote := some c }
    else if isOpening c then { n with depth := n.depth + 1 }
    else if isClosing c then { n with depth := n.depth - 1 }
    else n

/-- The character, read from here, is a separator: it stands outside of all quotes and
brackets, and is none of them itself. -/
def Nesting.cutsAt (n : Nesting) (sep c : Char) : Bool :=
  n.quote.isNone && n.depth == 0 && c = sep && !(isQuoteMark c || isOpening c || isClosing c)

/-- The parts of a text read from `n`, the first of them in front. -/
def partsFrom (sep : Char) (n : Nesting) : List Char → List Char × List (List Char)
  | [] => ([], [])
  | c :: r =>
    let (first, others) := partsFrom sep (n.next c) r
    if n.cutsAt sep c then ([], first :: others) else (c :: first, others)

/-- The parts of a text between the separators that stand outside of quotes and
brackets. -/
def splitOutside (sep : Char) (s : List Char) : List (List Char) :=
  let (first, others) := partsFrom sep Nesting.outside s
  first :: others

end CodeSurvey.Text
