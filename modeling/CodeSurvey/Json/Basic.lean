-- JSON values: the form in which job payloads, settings of a run and stored
-- parameter lists come and go, and the compact text of a value.
import CodeSurvey.Text.Number

namespace CodeSurvey

/-- A number of a JSON text. One that is written with a fraction or an exponent,
or that no 64-bit word holds, is `digits * 10 ^ exponent`. -/
inductive Json.Number where
  | whole (n : Int)
  | decimal (digits exponent : Int)
deriving DecidableEq, Repr, Inhabited

/-- A JSON value. The entries of an object stand in the order of its text. -/
inductive Json where
  | null
  | bool (b : Bool)
  | number (n : Json.Number)
  | text (s : String)
  | array (items : List Json)
  | object (entries : List (String × Json))
deriving Repr, Inhabited, BEq

namespace Json

def int (n : Int) : Json := .number (.whole n)

def nat (n : Nat) : Json := int n

def orNull {α : Type} (encode : α → Json) : Option α → Json
  | none => .null
  | some a => encode a

/-! ## Entries by key -/

def lookup (key : String) (entries : List (String × Json)) : Option Json :=
  (entries.find? (fun e => e.1 == key)).map (·.2)

/-- The value under the key of an object. -/
def get? (key : String) : Json → Option Json
  | .object entries => lookup key entries
  | _ => none

/-- The entries with one value set. A key that is there keeps its place; a new one
comes before the first greater key, so sorted entries stay sorted. -/
def put (key : String) (value : Json) : List (String × Json) → List (String × Json)
  | [] => [(key, value)]
  | (k, v) :: r =>
    if k == key then (key, value) :: r
    else if key < k then (key, value) :: (k, v) :: r
    else (k, v) :: put key value r

/-- The object with the entries, in the order of their keys; of entries with one key the last. -/
def record (entries : List (String × Json)) : Json :=
  .object (entries.foldl (fun acc (k, v) => put k v acc) [])

/-- The value changed by an extra: an object takes the entries of another object one
by one, and anything else is replaced. -/
def merge : Json → Json → Json
  | .object old, .object new => .object (new.foldl (fun acc (k, v) => put k v acc) old)
  | _, extra => extra

/-! ## Text -/

def natText (n : Nat) : List Char := Nat.toDigits 10 n

/-- The digits of a whole number, with a minus sign when it is negative. -/
def intText (n : Int) : List Char :=
  if n < 0 then '-' :: natText n.natAbs else natText n.natAbs

/-- A decimal number without an exponent: a point stands before the places after it,
and a whole value ends in one zero after the point. -/
def decimalText (digits exponent : Int) : List Char :=
  let sign := if digits < 0 then ['-'] else []
  if 0 ≤ exponent then
    sign ++ natText (digits.natAbs * Text.tenTo exponent.toNat) ++ ['.', '0']
  else
    let places := (-exponent).toNat
    let all := natText digits.natAbs
    let all := List.replicate (places + 1 - all.length) '0' ++ all
    let fraction := (all.drop (all.length - places)).reverse.dropWhile (· = '0') |>.reverse
    sign ++ all.take (all.length - places) ++ '.' :: (if fraction.isEmpty then ['0'] else fraction)

def Number.chars : Number → List Char
  | .whole n => intText n
  | .decimal d e => decimalText d e

/-- One character of a string, escaped where the format asks for it. -/
def escapedChar (c : Char) : List Char :=
  if c = '"' then ['\\', '"']
  else if c = '\\' then ['\\', '\\']
  else if c = '\n' then ['\\', 'n']
  else if c = '\r' then ['\\', 'r']
  else if c = '\t' then ['\\', 't']
  else if c.toNat = 8 then ['\\', 'b']
  else if c.toNat = 12 then ['\\', 'f']
  else if c.toNat < 0x20 then
    ['\\', 'u', '0', '0', Text.hexDigit (c.toNat / 16), Text.hexDigit (c.toNat % 16)]
  else [c]

def stringText (s : String) : List Char := '"' :: s.toList.flatMap escapedChar ++ ['"']

mutual

def chars : Json → List Char
  | .null => ['n', 'u', 'l', 'l']
  | .bool true => ['t', 'r', 'u', 'e']
  | .bool false => ['f', 'a', 'l', 's', 'e']
  | .number n => n.chars
  | .text s => stringText s
  | .array items => '[' :: itemsText items ++ [']']
  | .object entries => '\x7b' :: entriesText entries ++ ['\x7d']

/-- The items of an array with commas between them. -/
def itemsText : List Json → List Char
  | [] => []
  | [v] => v.chars
  | v :: r => v.chars ++ ',' :: itemsText r

/-- The entries of an object with commas between them. -/
def entriesText : List (String × Json) → List Char
  | [] => []
  | [(k, v)] => stringText k ++ ':' :: v.chars
  | (k, v) :: r => stringText k ++ ':' :: v.chars ++ ',' :: entriesText r

end

/-- The compact text of a value as a string. -/
def render (v : Json) : String := String.ofList v.chars

end Json

end CodeSurvey
