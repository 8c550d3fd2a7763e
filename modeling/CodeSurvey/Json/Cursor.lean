-- Where a reader stands in a JSON text, and the tokens that it reads there:
-- marks, words, strings and numbers. A fault carries the line and the column
-- at which it was noticed.
import CodeSurvey.Json.Issue
import CodeSurvey.Text.Number

namespace CodeSurvey.Json

/-! ## Places -/

/-- A place in a text. Lines count from one, columns are bytes since the start of the line. -/
structure Place where
  line : Nat
  column : Nat
deriving DecidableEq, Repr

/-- What is wrong with the text of a value, or with the value in it. -/
inductive TextIssue where
  | endInList
  | endInObject
  | endInString
  | endInValue
  | expectedColon
  | expectedListEnd
  | expectedObjectEnd
  | expectedWord
  | expectedValue
  | invalidEscape
  | invalidNumber
  | controlCharacter
  | keyMustBeString
  | trailingComma
  | trailingCharacters
  | loneSurrogate
  | unfinishedSurrogate
  | tooDeep
  | value (issue : Issue)
deriving DecidableEq, Repr

def TextIssue.message : TextIssue → String
  | endInList => "EOF while parsing a list"
  | endInObject => "EOF while parsing an object"
  | endInString => "EOF while parsing a string"
  | endInValue => "EOF while parsing a value"
  | expectedColon => "expected " ++ ticked ":"
  | expectedListEnd => "expected " ++ ticked "," ++ " or " ++ ticked "]"
  | expectedObjectEnd => "expected " ++ ticked "," ++ " or " ++ ticked "\x7d"
  | expectedWord => "expected ident"
  | expectedValue => "expected value"
  | invalidEscape => "invalid escape"
  | invalidNumber => "invalid number"
  | controlCharacter => "control character (\\u0000-\\u001F) found while parsing a string"
  | keyMustBeString => "key must be a string"
  | trailingComma => "trailing comma"
  | trailingCharacters => "trailing characters"
  | loneSurrogate => "lone leading surrogate in hex escape"
  | unfinishedSurrogate => "unexpected end of hex escape"
  | tooDeep => "recursion limit exceeded"
  | value issue => issue.message

/-- Something wrong at a place. -/
structure Fault where
  issue : TextIssue
  place : Place
deriving DecidableEq, Repr

def Fault.message (f : Fault) : String :=
  f.issue.message ++ " at line " ++ toString f.place.line ++ " column " ++ toString f.place.column

/-! ## The cursor -/

/-- What is left of a text, and the place of its first character. -/
structure Cursor where
  rest : List Char
  place : Place
deriving Repr

def Cursor.start (text : List Char) : Cursor := ⟨text, ⟨1, 0⟩⟩

def Place.next (p : Place) (c : Char) : Place :=
  if c = '\n' then ⟨p.line + 1, 0⟩ else ⟨p.line, p.column + c.utf8Size⟩

def Cursor.next (c : Cursor) : Cursor :=
  match c.rest with
  | [] => c
  | h :: r => ⟨r, c.place.next h⟩

def Cursor.skip : Nat → Cursor → Cursor
  | 0, c => c
  | n + 1, c => c.next.skip n

def isGap (c : Char) : Bool := c = ' ' || c = '\n' || c = '\t' || c = '\r'

def Cursor.settle (c : Cursor) : Cursor := c.skip (c.rest.takeWhile isGap).length

def Cursor.fault {α : Type} (c : Cursor) (i : TextIssue) : Except Fault α := .error ⟨i, c.place⟩

/-- A fault noticed at the next character. -/
def Cursor.faultAhead {α : Type} (c : Cursor) (i : TextIssue) : Except Fault α := c.next.fault i

/-! ## Words and strings -/

/-- The letters of a word, the first of which is already read. -/
def readWord : List Char → Cursor → Except Fault Cursor
  | [], c => .ok c
  | w :: ws, c =>
    match c.rest with
    | [] => c.fault .endInValue
    | h :: _ => if h = w then readWord ws c.next else c.next.fault .expectedWord

def hexValue? (c : Char) : Option Nat :=
  if c.isDigit then some (Text.digitValue c)
  else if 'a' ≤ c ∧ c ≤ 'f' then some (c.toNat - 'a'.toNat + 10)
  else if 'A' ≤ c ∧ c ≤ 'F' then some (c.toNat - 'A'.toNat + 10)
  else none

def readHex (c : Cursor) : Except Fault (Nat × Cursor) :=
  match c.rest with
  | a :: b :: d :: e :: _ =>
    let c := c.skip 4
    match hexValue? a, hexValue? b, hexValue? d, hexValue? e with
    | some a, some b, some d, some e => .ok (((a * 16 + b) * 16 + d) * 16 + e, c)
    | _, _, _, _ => c.fault .invalidEscape
  | r => (c.skip r.length).fault .endInString

/-- The mark, in the middle of an escape that goes on. -/
def readEscapeMark (mark : Char) (c : Cursor) : Except Fault Cursor :=
  match c.rest with
  | [] => c.fault .endInString
  | h :: _ => if h = mark then .ok c.next else c.next.fault .unfinishedSurrogate

/-- The character of an escape by number. A number from the upper half of the pairs needs one
from the lower half behind it. -/
def readNumbered (c : Cursor) : Except Fault (Char × Cursor) := do
  let (n, c) ← readHex c
  if 0xDC00 ≤ n && n ≤ 0xDFFF then c.fault .loneSurrogate
  else if n < 0xD800 || 0xDBFF < n then .ok (Char.ofNat n, c)
  else
    let c ← readEscapeMark '\\' c
    let c ← readEscapeMark 'u' c
    let (m, c) ← readHex c
    if m < 0xDC00 || 0xDFFF < m then c.fault .loneSurrogate
    else .ok (Char.ofNat ((n - 0xD800) * 1024 + (m - 0xDC00) + 0x10000), c)

/-- The character of an escape, behind its backslash. -/
def readEscape (c : Cursor) : Except Fault (Char × Cursor) :=
  match c.rest with
  | [] => c.fault .endInString
  | h :: _ =>
    let c := c.next
    match h with
    | '"' => .ok ('"', c)
    | '\\' => .ok ('\\', c)
    | '/' => .ok ('/', c)
    | 'b' => .ok (Char.ofNat 8, c)
    | 'f' => .ok (Char.ofNat 12, c)
    | 'n' => .ok ('\n', c)
    | 'r' => .ok ('\r', c)
    | 't' => .ok ('\t', c)
    | 'u' => readNumbered c
    | _ => c.fault .invalidEscape

/-- The characters of a string behind its opening quote, in reverse behind those read before.
Each takes at least one character of the text, so `fuel` is its length. -/
def readStringFrom : Nat → List Char → Cursor → Except Fault (String × Cursor)
  | 0, _, c => c.fault .endInString
  | fuel + 1, read, c =>
    match c.rest with
    | [] => c.fault .endInString
    | '"' :: _ => .ok (String.ofList read.reverse, c.next)
    | '\\' :: _ => do
      let (h, c) ← readEscape c.next
      readStringFrom fuel (h :: read) c
    | h :: _ =>
      if h.toNat < 0x20 then c.next.fault .controlCharacter
      else readStringFrom fuel (h :: read) c.next

def readStringBody (c : Cursor) : Except Fault (String × Cursor) := readStringFrom (c.rest.length + 1) [] c

/-! ## Numbers -/

def digitRun (c : Cursor) : List Char := c.rest.takeWhile Char.isDigit

def digitsValue (ds : List Char) : Nat := (Text.digits? ds).getD 0

/-- The exponent of a number, behind its letter. -/
def readExponent (c : Cursor) : Except Fault (Int × Cursor) :=
  let negative := c.rest.head? = some '-'
  let c := if negative || c.rest.head? = some '+' then c.next else c
  let ds := digitRun c
  match c.rest with
  | [] => c.fault .endInValue
  | _ :: _ =>
    if ds.isEmpty then c.next.fault .invalidNumber
    else
      let n : Int := digitsValue ds
      .ok (if negative then -n else n, c.skip ds.length)

/-- The digits behind the point of a number, if it has one. -/
def readFraction (c : Cursor) : Except Fault (List Char × Cursor) :=
  match c.rest with
  | '.' :: _ =>
    let c := c.next
    let ds := digitRun c
    if !ds.isEmpty then .ok (ds, c.skip ds.length)
    else if c.rest.isEmpty then c.fault .endInValue
    else c.faultAhead .invalidNumber
  | _ => .ok ([], c)

/-- The number of the digits, the places behind the point and the exponent. One that no 64-bit
word holds, or that has places or an exponent, is a decimal; so is a negative zero. -/
def numberOf (negative : Bool) (whole places : List Char) (exponent : Option Int) : Number :=
  let digits : Int := digitsValue (whole ++ places)
  let value := if negative then -digits else digits
  match places, exponent with
  | [], none =>
    if (negative && digits = 0) || value < -(Text.wordSize 63) || Text.wordSize 64 ≤ value then
      .decimal value 0
    else .whole value
  | _, _ => .decimal value (exponent.getD 0 - places.length)

def readNumber (negative : Bool) (c : Cursor) : Except Fault (Number × Cursor) :=
  let whole := digitRun c
  match c.rest with
  | [] => c.fault .endInValue
  | h :: _ =>
    if whole.isEmpty then c.next.fault .invalidNumber
    else if h = '0' && whole.length > 1 then c.next.faultAhead .invalidNumber
    else do
      let (places, c) ← readFraction (c.skip whole.length)
      match c.rest with
      | e :: _ =>
        if e = 'e' || e = 'E' then
          let (exponent, c) ← readExponent c.next
          .ok (numberOf negative whole places (some exponent), c)
        else .ok (numberOf negative whole places none, c)
      | [] => .ok (numberOf negative whole places none, c)

end CodeSurvey.Json
