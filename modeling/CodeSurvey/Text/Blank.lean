-- Blank characters, and the ways in which blank space is cut off or evened
-- out. Blank is the Unicode property White_Space, so the rules hold for all
-- scripts.

namespace CodeSurvey.Text

/-! ## The property -/

/-- The characters with the Unicode property White_Space. -/
def isBlank (c : Char) : Bool :=
  let n := c.toNat
  (9 ≤ n && n ≤ 13) || n == 0x20 || n == 0x85 || n == 0xA0 || n == 0x1680 ||
    (0x2000 ≤ n && n ≤ 0x200A) || n == 0x2028 || n == 0x2029 || n == 0x202F ||
    n == 0x205F || n == 0x3000

/-- The text has no character that is not blank. -/
def allBlank (s : List Char) : Bool := s.all isBlank

/-! ## Cutting off -/

/-- The text without the characters at its end that satisfy the test. -/
def dropEndWhile (p : Char → Bool) (s : List Char) : List Char :=
  (s.reverse.dropWhile p).reverse

/-- The text without the characters at both ends that satisfy the test. -/
def dropAroundWhile (p : Char → Bool) (s : List Char) : List Char :=
  dropEndWhile p (s.dropWhile p)

def trimStart (s : List Char) : List Char := s.dropWhile isBlank

/-- The text without blanks at its end. -/
def trimEnd (s : List Char) : List Char := dropEndWhile isBlank s

/-- The text without blanks at both ends. -/
def trim (s : List Char) : List Char := dropAroundWhile isBlank s

/-! ## Words -/

/-- The longest runs of characters that are not blank, in order. -/
def words (s : List Char) : List (List Char) :=
  (s.splitOnP isBlank).filter (fun w => !w.isEmpty)

/-- The words of the text with one space between each two. -/
def singleSpaced (s : List Char) : List Char := [' '].intercalate (words s)

/-! ## Fixed beginnings and ends -/

/-- What follows `head` when the text begins with it. -/
def dropFront? (head s : List Char) : Option (List Char) := head.isPrefixOf? s

/-- What stands before `tail` when the text ends with it. -/
def dropBack? (tail s : List Char) : Option (List Char) :=
  (tail.reverse.isPrefixOf? s.reverse).map List.reverse

def startsWith (head s : List Char) : Bool := head.isPrefixOf s

def endsWith (tail s : List Char) : Bool := tail.isSuffixOf s

/-- The text up to the first place where `mark` stands, and the text after that
mark; nothing when the mark does not occur. -/
def cutAt? (mark : List Char) : List Char → Option (List Char × List Char)
  | [] => (mark.isPrefixOf? []).map (([], ·))
  | c :: r =>
    match mark.isPrefixOf? (c :: r) with
    | some rest => some ([], rest)
    | none => (cutAt? mark r).map (fun (a, b) => (c :: a, b))

/-- The text before the first place where `mark` stands, all of it when the mark
does not occur. -/
def before (mark s : List Char) : List Char :=
  match cutAt? mark s with
  | some (a, _) => a
  | none => s

end CodeSurvey.Text
