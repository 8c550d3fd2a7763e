-- Upper and lower case beyond the Latin letters: the test for an upper-case
-- letter, and the lower case of a text, with the sigma that ends a word.
import CodeSurvey.Text.Casing.Table

namespace CodeSurvey.Text

/-- The code point lies on one of the rows. -/
def onRows (rows : List (Nat × Nat)) (c : Char) : Bool :=
  rows.any (fun (lo, hi) => decide (lo ≤ c.toNat) && decide (c.toNat ≤ hi))

/-- The character has the Unicode property Uppercase. -/
def isUpper (c : Char) : Bool := upperRows.any (·.has c.toNat)

/-- The lower case of one character outside a word's end. The dotted capital I
becomes two characters. -/
def lowerOf (c : Char) : List Char :=
  if c.toNat = 0x130 then ['i', Char.ofNat 0x307]
  else match lowerRows.find? (·.1.has c.toNat) with
    | some (_, d) => [Char.ofNat (c.toNat + d).toNat]
    | none => [c]

/-- The first character that is not skipped for case is a cased one. -/
def nextIsCased (s : List Char) : Bool :=
  match s.dropWhile (onRows ignoredRows) with
  | [] => false
  | c :: _ => onRows casedRows c

/-- The lower case of a text whose earlier characters, latest first, are
`earlier`. A capital sigma after a letter and before none takes the final form. -/
def lowerFrom (earlier : List Char) : List Char → List Char
  | [] => []
  | c :: r =>
    (if c.toNat = 0x3A3 then
      [Char.ofNat (if nextIsCased earlier && !nextIsCased r then 0x3C2 else 0x3C3)]
    else lowerOf c) ++ lowerFrom (c :: earlier) r

def lower (s : List Char) : List Char := lowerFrom [] s

end CodeSurvey.Text
