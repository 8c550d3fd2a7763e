-- The bytes of a text. Each character takes one to four bytes; where bytes are
-- no text, the first fault tells how many of them it spans, or that they end
-- in the middle of a character.
namespace CodeSurvey.Text

/-! ## Faults -/

/-- What keeps bytes from being a text. -/
inductive EncodingFault where
  /-- So many bytes, from the index on, belong to no character. -/
  | invalid (index length : Nat)
  /-- The bytes end in the character that starts at the index. -/
  | incomplete (index : Nat)
deriving DecidableEq, Repr

def EncodingFault.message : EncodingFault → String
  | invalid index length =>
    "invalid utf-8 sequence of " ++ toString length ++ " bytes from index " ++ toString index
  | incomplete index => "incomplete utf-8 byte sequence from index " ++ toString index

/-! ## Characters as bytes -/

/-- A byte that goes on with a character. -/
def isFollower (b : UInt8) : Bool := 0x80 ≤ b && b ≤ 0xbf

/-- The tests for the bytes behind the first byte of a character; none when no character starts
with that. The second byte keeps out long forms of characters that have a shorter one, the
halves of pairs, and what lies beyond the last character. -/
def followers? (first : UInt8) : Option (List (UInt8 → Bool)) :=
  if first < 0x80 then some []
  else if first < 0xc2 then none
  else if first < 0xe0 then some [isFollower]
  else if first = 0xe0 then some [fun b => 0xa0 ≤ b && b ≤ 0xbf, isFollower]
  else if first = 0xed then some [fun b => 0x80 ≤ b && b ≤ 0x9f, isFollower]
  else if first < 0xf0 then some [isFollower, isFollower]
  else if first = 0xf0 then some [fun b => 0x90 ≤ b && b ≤ 0xbf, isFollower, isFollower]
  else if first < 0xf4 then some [isFollower, isFollower, isFollower]
  else if first = 0xf4 then some [fun b => 0x80 ≤ b && b ≤ 0x8f, isFollower, isFollower]
  else none

/-- How the bytes behind the first of a character end: what is left behind the character, or
the number of bytes that still belonged to one, or nothing when the bytes ran out. -/
def takeFollowers (length : Nat) :
    List (UInt8 → Bool) → List UInt8 → Except (Option Nat) (List UInt8)
  | [], bytes => .ok bytes
  | _ :: _, [] => .error none
  | test :: tests, b :: bytes =>
    if test b then takeFollowers (length + 1) tests bytes else .error (some length)

/-- The first fault of bytes, if there is one. The fuel is the number of bytes. -/
def faultFrom (index : Nat) (fuel : Nat) (bytes : List UInt8) : Option EncodingFault :=
  match fuel, bytes with
  | _, [] => none
  | 0, _ => none
  | fuel + 1, first :: bytes =>
    match followers? first with
    | none => some (.invalid index 1)
    | some tests =>
      match takeFollowers 1 tests bytes with
      | .ok rest => faultFrom (index + 1 + tests.length) fuel rest
      | .error none => some (.incomplete index)
      | .error (some length) => some (.invalid index length)

def decode (bytes : ByteArray) : Except EncodingFault String :=
  match String.fromUTF8? bytes with
  | some s => .ok s
  | none => .error ((faultFrom 0 bytes.size bytes.toList).getD (.incomplete bytes.size))

end CodeSurvey.Text
