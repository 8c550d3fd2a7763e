-- Points in time, counted in nanoseconds, and the text of them: a date and a
-- time of day with the offset of its place.
import CodeSurvey.Text.Blank
import CodeSurvey.Text.Casing
import CodeSurvey.Text.Number

namespace CodeSurvey

/-- A point in time: the nanoseconds since the start of 1970, in Greenwich. -/
structure Instant where
  nanos : Int
deriving DecidableEq, Repr

/-- A stretch of time, in nanoseconds. -/
structure Duration where
  nanos : Nat
deriving DecidableEq, Repr

def Duration.ofSeconds (n : Nat) : Duration := ⟨n * 1000000000⟩

def Duration.ofMillis (n : Nat) : Duration := ⟨n * 1000000⟩

def Duration.seconds (d : Duration) : Nat := d.nanos / 1000000000

namespace Instant

/-- The point in time that many nanoseconds later. -/
def later (t : Instant) (nanos : Int) : Instant := ⟨t.nanos + nanos⟩

/-! ## The calendar -/

/-- The number of days from the start of 1970 to a day of the calendar. -/
def daysOf (year : Int) (month day : Nat) : Int :=
  let y := if month ≤ 2 then year - 1 else year
  let era := y.fdiv 400
  let yearOfEra := y - era * 400
  let monthFromMarch : Int := ((month : Int) + 9).fmod 12
  let dayOfYear := (153 * monthFromMarch + 2).fdiv 5 + day - 1
  era * 146097 + yearOfEra * 365 + yearOfEra.fdiv 4 - yearOfEra.fdiv 100 + dayOfYear - 719468

/-- The day of the calendar that many days after the start of 1970. -/
def dateOf (days : Int) : Int × Nat × Nat :=
  let z := days + 719468
  let era := z.fdiv 146097
  let dayOfEra := z - era * 146097
  let yearOfEra := (dayOfEra - dayOfEra.fdiv 1460 + dayOfEra.fdiv 36524 - dayOfEra.fdiv 146096).fdiv 365
  let dayOfYear := dayOfEra - (365 * yearOfEra + yearOfEra.fdiv 4 - yearOfEra.fdiv 100)
  let monthFromMarch := (5 * dayOfYear + 2).fdiv 153
  let day := dayOfYear - (153 * monthFromMarch + 2).fdiv 5 + 1
  let month := if monthFromMarch < 10 then monthFromMarch + 3 else monthFromMarch - 9
  let year := yearOfEra + era * 400 + (if month ≤ 2 then 1 else 0)
  (year, month.toNat, day.toNat)

def isLeapYear (year : Int) : Bool :=
  year.fmod 4 = 0 && (year.fmod 100 ≠ 0 || year.fmod 400 = 0)

/-- The number of days of a month. -/
def daysOfMonth (year : Int) (month : Nat) : Nat :=
  if month = 2 then (if isLeapYear year then 29 else 28)
  else if month = 4 || month = 6 || month = 9 || month = 11 then 30 else 31

/-! ## Printing -/

/-- The digits of a number, with zeros in front up to the width. -/
def padded (width n : Nat) : List Char :=
  let ds := Nat.toDigits 10 n
  List.replicate (width - ds.length) '0' ++ ds

/-- The fraction of a second: nothing, or three, six or nine places. -/
def fractionText (nanos : Nat) : List Char :=
  if nanos = 0 then []
  else if nanos % 1000000 = 0 then '.' :: padded 3 (nanos / 1000000)
  else if nanos % 1000 = 0 then '.' :: padded 6 (nanos / 1000)
  else '.' :: padded 9 nanos

/-- The year in four digits, or with a sign when it needs more or is negative. -/
def yearText (year : Int) : List Char :=
  if 0 ≤ year ∧ year ≤ 9999 then padded 4 year.toNat
  else (if year < 0 then '-' else '+') :: padded 4 year.natAbs

/-- The text of a point in time, in Greenwich. -/
def text (t : Instant) : String :=
  let seconds := t.nanos.fdiv 1000000000
  let days := seconds.fdiv 86400
  let ofDay := (seconds - days * 86400).toNat
  let (year, month, day) := dateOf days
  String.ofList (yearText year ++ '-' :: padded 2 month ++ '-' :: padded 2 day ++ 'T' ::
    padded 2 (ofDay / 3600) ++ ':' :: padded 2 (ofDay / 60 % 60) ++ ':' :: padded 2 (ofDay % 60) ++
    fractionText (t.nanos.fmod 1000000000).toNat ++ ['Z'])

/-! ## Reading -/

/-- What is wrong with the text of a point in time. -/
inductive TextIssue where
  | tooShort
  | tooLong
  | invalid
  | outOfRange
deriving DecidableEq, Repr

def TextIssue.message : TextIssue → String
  | .tooShort => "premature end of input"
  | .tooLong => "trailing input"
  | .invalid => "input contains invalid characters"
  | .outOfRange => "input is out of range"

/-- A piece that is read off the front of a text. -/
abbrev Scan (α : Type) := StateT (List Char) (Except TextIssue) α

def skipBlanks : Scan Unit := modify Text.trimStart

/-- A number of at most `width` digits, behind blanks. -/
def scanNumber (width : Nat) : Scan Nat := do
  skipBlanks
  let s ← get
  let ds := (s.take width).takeWhile Char.isDigit
  if s.isEmpty then throw .tooShort
  else if ds.isEmpty then throw .invalid
  else
    set (s.drop ds.length)
    return (Text.digits? ds).getD 0

/-- A year: four digits, or a sign and any number of digits. -/
def scanYear : Scan Int := do
  skipBlanks
  match ← get with
  | '-' :: r => do set r; return -(← scanNumber r.length)
  | '+' :: r => do set r; return ← scanNumber r.length
  | _ => return ← scanNumber 4

def scanMark (mark : Char) : Scan Unit := do
  skipBlanks
  match ← get with
  | [] => throw .tooShort
  | c :: r => if c = mark then set r else throw .invalid

/-- A fraction of a second in nanoseconds; further places are passed over. -/
def scanFraction : Scan Nat := do
  match ← get with
  | '.' :: r =>
    let ds := r.takeWhile Char.isDigit
    if r.isEmpty then throw .tooShort
    else if ds.isEmpty then throw .invalid
    else
      set (r.drop ds.length)
      let taken := ds.take 9
      return (Text.digits? taken).getD 0 * Text.tenTo (9 - taken.length)
  | _ => return 0

def scanPair : Scan Nat := do
  match ← get with
  | a :: b :: r =>
    if a.isDigit && b.isDigit then
      set r
      return 10 * Text.digitValue a + Text.digitValue b
    else throw .invalid
  | _ => throw .tooShort

/-- The offset of the place in seconds: a letter or word for Greenwich, or hours and minutes
with a sign. -/
def scanOffset : Scan Int := do
  skipBlanks
  let s ← get
  if Text.lower (s.take 3) = ['u', 't', 'c'] then
    set (s.drop 3)
    return 0
  else
    match s with
    | [] => throw .tooShort
    | c :: r =>
      if c = 'Z' || c = 'z' then
        set r
        return 0
      else if c = '+' || c = '-' || c.toNat = 0x2212 then
        set r
        let hours ← scanPair
        modify (fun s => s.dropWhile (fun c => c = ':' || Text.isBlank c))
        let minutes ← if (← get).isEmpty then pure 0 else scanPair
        if minutes > 59 then throw .outOfRange
        let seconds : Int := hours * 3600 + minutes * 60
        return if c = '+' then seconds else -seconds
      else throw .invalid

/-- A point in time off the front of a text. -/
def scan : Scan Instant := do
  let year ← scanYear
  scanMark '-'
  let month ← scanNumber 2
  scanMark '-'
  let day ← scanNumber 2
  match ← get with
  | [] => throw .tooShort
  | c :: r => if c = 'T' || c = 't' || c = ' ' then set r else throw .invalid
  let hour ← scanNumber 2
  scanMark ':'
  let minute ← scanNumber 2
  scanMark ':'
  let second ← scanNumber 2
  let fraction ← scanFraction
  let offset ← scanOffset
  if month < 1 || month > 12 || day < 1 || day > 31 || hour > 23 || minute > 59 || second > 60 ||
      offset ≤ -86400 || offset ≥ 86400 || year < -262143 || year > 262142 ||
      day > daysOfMonth year month then throw .outOfRange
  let seconds := daysOf year month day * 86400 + hour * 3600 + minute * 60 + second - offset
  return ⟨seconds * 1000000000 + fraction⟩

/-- The point in time that a text gives. -/
def ofText (s : String) : Except TextIssue Instant := do
  let (t, rest) ← scan.run s.toList
  if Text.allBlank rest then return t else throw .tooLong

end Instant

end CodeSurvey
