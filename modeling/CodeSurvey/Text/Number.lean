-- Whole numbers as they are written: digits, with a sign in front or without, or in hexadecimal.

namespace CodeSurvey.Text

/-- The number of values of a word of so many bits. -/
def wordSize (bits : Nat) : Nat := Nat.pow 2 bits

def tenTo (zeros : Nat) : Nat := Nat.pow 10 zeros

def digitValue (c : Char) : Nat := c.toNat - '0'.toNat

/-- The number that digits write; none when there is no digit, or something else. -/
def digits? (s : List Char) : Option Nat :=
  if s.isEmpty || !s.all Char.isDigit then none
  else some (s.foldl (fun n c => 10 * n + digitValue c) 0)

/-- A number without a sign, or with a plus sign, that is below the bound. -/
def unsigned? (bound : Nat) (s : List Char) : Option Nat :=
  let n := match s with
    | '+' :: r => digits? r
    | r => digits? r
  n.filter (· < bound)

/-- A number with a sign or without, from the first bound up to below the second. -/
def signed? (lo hi : Int) (s : List Char) : Option Int :=
  let n : Option Int := match s with
    | '-' :: r => (digits? r).map (fun n => -(n : Int))
    | '+' :: r => (digits? r).map Int.ofNat
    | r => (digits? r).map Int.ofNat
  n.filter (fun n => lo ≤ n && n < hi)

/-- A number of 64 bits without a sign. -/
def uint64? (s : List Char) : Option UInt64 := (unsigned? (wordSize 64) s).map UInt64.ofNat

/-- A number of 32 bits with a sign. -/
def int32? (s : List Char) : Option Int := signed? (-(wordSize 31)) (wordSize 31) s

/-! ## Hexadecimal -/

/-- One of the sixteen digits, letters in lower case. -/
def hexDigit (n : Nat) : Char := Char.ofNat (if n < 10 then 48 + n else 87 + n)

/-- A natural number in hexadecimal, without leading zeros. -/
def hexText (n : Nat) : List Char := Nat.toDigits 16 n

end CodeSurvey.Text
