-- Decoders read records straight from the text of a JSON value. What is wrong
-- is reported where it is first noticed, be it the text or the value in it.
import CodeSurvey.Json.Cursor

namespace CodeSurvey.Json

/-- A way to read a value off the text. -/
abbrev Decoder (α : Type) := Cursor → Except Fault (α × Cursor)

/-! ## Single values -/

/-- The next token, which must be there. -/
def Cursor.token (c : Cursor) : Except Fault (Char × Cursor) :=
  let c := c.settle
  match c.rest with
  | [] => c.fault .endInValue
  | h :: _ => .ok (h, c)

/-- A value of the wrong type stands here. A scalar is read before that is reported; an array or
object is not. -/
def wrongType {α : Type} (expected : String) (h : Char) (c : Cursor) : Except Fault (α × Cursor) :=
  let report (met : Found) (c : Cursor) : Except Fault (α × Cursor) :=
    c.fault (.value (.invalidType met expected))
  if h = 'n' then do report .null (← readWord ['u', 'l', 'l'] c.next)
  else if h = 't' then do report (.bool true) (← readWord ['r', 'u', 'e'] c.next)
  else if h = 'f' then do report (.bool false) (← readWord ['a', 'l', 's', 'e'] c.next)
  else if h = '-' then do
    let (n, c) ← readNumber true c.next
    report (.number n) c
  else if h.isDigit then do
    let (n, c) ← readNumber false c
    report (.number n) c
  else if h = '"' then do
    let (s, c) ← readStringBody c.next
    report (.text s) c
  else if h = '[' then report .sequence c
  else if h = '\x7b' then report .map c
  else c.faultAhead .expectedValue

def decodeText : Decoder String := fun c => do
  let (h, c) ← c.token
  if h = '"' then readStringBody c.next else wrongType "a string" h c

def decodeBool : Decoder Bool := fun c => do
  let (h, c) ← c.token
  if h = 't' then return (true, ← readWord ['r', 'u', 'e'] c.next)
  else if h = 'f' then return (false, ← readWord ['a', 'l', 's', 'e'] c.next)
  else wrongType "a boolean" h c

/-- None for null, and otherwise what the decoder reads. -/
def decodeOption {α : Type} (read : Decoder α) : Decoder (Option α) := fun c =>
  let c := c.settle
  match c.rest with
  | 'n' :: _ => do return (none, ← readWord ['u', 'l', 'l'] c.next)
  | _ => do
    let (a, c) ← read c
    return (some a, c)

def decodeCount : Decoder UInt64 := fun c => do
  let (h, c) ← c.token
  if h = '-' || h.isDigit then
    let (n, c) ← readNumber (h = '-') (if h = '-' then c.next else c)
    match n with
    | .whole m =>
      if 0 ≤ m then return (UInt64.ofNat m.toNat, c)
      else c.fault (.value (.invalidValue (.number n) "usize"))
    | .decimal _ _ => c.fault (.value (.invalidType (.number n) "usize"))
  else wrongType "usize" h c

/-! ## Arrays -/

/-- Where a fault in an array or object shows, once its end has been looked for. -/
def Cursor.behind (close : Char) (c : Cursor) : Cursor :=
  let c := c.settle
  match c.rest with
  | h :: _ => if h = close then c.next else if h = ',' && close = ']' then c.next.settle else c
  | [] => c

/-- Another item of an array follows, and where; `first` says that none was read. -/
def itemAhead (first : Bool) (c : Cursor) : Except Fault (Bool × Cursor) :=
  let c := c.settle
  match c.rest with
  | [] => c.fault .endInList
  | h :: _ =>
    if h = ']' then .ok (false, c)
    else if first then .ok (true, c)
    else if h = ',' then
      let c := c.next.settle
      match c.rest with
      | [] => c.fault .endInValue
      | h :: _ => if h = ']' then c.faultAhead .trailingComma else .ok (true, c)
    else c.faultAhead .expectedListEnd

def listEnd (c : Cursor) : Except Fault Cursor :=
  let c := c.settle
  match c.rest with
  | [] => c.fault .endInList
  | h :: _ =>
    if h = ']' then .ok c.next
    else if h = ',' then
      let c := c.next.settle
      c.faultAhead (if c.rest.head? = some ']' then .trailingComma else .trailingCharacters)
    else c.faultAhead .trailingCharacters

/-- The items of an array behind its bracket, after those read before, latest first. Each takes
a character at least, so `fuel` is the length of the text. -/
def decodeItems {α : Type} (read : Decoder α) : Nat → List α → Decoder (List α)
  | 0, _, c => c.fault .endInList
  | fuel + 1, items, c => do
    let (more, c) ← itemAhead items.isEmpty c
    if more then
      let (a, c) ← read c
      decodeItems read fuel (a :: items) c
    else return (items.reverse, ← listEnd c)

def decodeList {α : Type} (read : Decoder α) : Decoder (List α) := fun c => do
  let (h, c) ← c.token
  if h = '[' then decodeItems read (c.rest.length + 1) [] c.next else wrongType "a sequence" h c

/-! ## Objects -/

/-- Another key of an object follows, and where; `first` says that none was read. -/
def keyAhead (first : Bool) (c : Cursor) : Except Fault (Bool × Cursor) :=
  let c := c.settle
  match c.rest with
  | [] => c.fault .endInObject
  | h :: _ =>
    if h = '\x7d' then .ok (false, c)
    else if first then
      if h = '"' then .ok (true, c) else c.faultAhead .keyMustBeString
    else if h = ',' then
      let c := c.next.settle
      match c.rest with
      | [] => c.fault .endInValue
      | h :: _ =>
        if h = '"' then .ok (true, c)
        else if h = '\x7d' then c.faultAhead .trailingComma
        else c.faultAhead .keyMustBeString
    else c.faultAhead .expectedObjectEnd

def readColon (c : Cursor) : Except Fault Cursor :=
  let c := c.settle
  match c.rest with
  | [] => c.fault .endInObject
  | h :: _ => if h = ':' then .ok c.next else c.faultAhead .expectedColon

def objectEnd (c : Cursor) : Except Fault Cursor :=
  let c := c.settle
  match c.rest with
  | [] => c.fault .endInObject
  | h :: _ =>
    if h = '\x7d' then .ok c.next
    else c.faultAhead (if h = ',' then .trailingComma else .trailingCharacters)

/-- The entries of an object behind its brace, folded from the left. -/
def decodeEntries {σ : Type} (step : σ → String → Decoder σ) :
    Nat → Bool → σ → Decoder σ
  | 0, _, _, c => c.fault .endInObject
  | fuel + 1, first, s, c => do
    let (more, c) ← keyAhead first c
    if more then
      let (key, c) ← readStringBody c.next
      let (s, c) ← step s key c
      decodeEntries step fuel false s c
    else return (s, c)

/-- An object whose values are all of one kind, each put where its key stands first. -/
def decodeMap {σ α : Type} (read : Decoder α) (put : String → α → σ → σ) (empty : σ) :
    Decoder σ := fun c => do
  let (h, c) ← c.token
  if h = '\x7b' then
    let step := fun s key c => do
      let (a, c) ← read (← readColon c)
      return (put key a s, c)
    let (s, c) ← decodeEntries step (c.rest.length + 1) true empty c.next
    return (s, ← objectEnd c)
  else wrongType "a map" h c

/-! ## Values of any type -/

/-- A value as it stands, its objects in the order of their keys. Its parts nest less deep than
`left`. -/
def decodeValue : Nat → Decoder Json
  | 0, c => c.faultAhead .tooDeep
  | left + 1, c => do
    let (h, c) ← c.token
    if h = 'n' then return (.null, ← readWord ['u', 'l', 'l'] c.next)
    else if h = 't' then return (.bool true, ← readWord ['r', 'u', 'e'] c.next)
    else if h = 'f' then return (.bool false, ← readWord ['a', 'l', 's', 'e'] c.next)
    else if h = '-' || h.isDigit then
      let (n, c) ← readNumber (h = '-') (if h = '-' then c.next else c)
      return (.number n, c)
    else if h = '"' then
      let (s, c) ← readStringBody c.next
      return (.text s, c)
    else if (h = '[' || h = '\x7b') && left = 0 then c.faultAhead .tooDeep
    else if h = '[' then
      let (items, c) ← decodeList (decodeValue left) c
      return (.array items, c)
    else if h = '\x7b' then
      let (entries, c) ← decodeMap (decodeValue left) put [] c
      return (.object entries, c)
    else c.faultAhead .expectedValue

/-! ## Values that are passed over -/

/-- A value of any type, passed over. Its parts nest no deeper than `fuel`. -/
def skipValue : Nat → Cursor → Except Fault Cursor
  | 0, c => c.fault .endInValue
  | fuel + 1, c => do
    let (h, c) ← c.token
    if h = 'n' then readWord ['u', 'l', 'l'] c.next
    else if h = 't' then readWord ['r', 'u', 'e'] c.next
    else if h = 'f' then readWord ['a', 'l', 's', 'e'] c.next
    else if h = '-' then (·.2) <$> readNumber true c.next
    else if h.isDigit then (·.2) <$> readNumber false c
    else if h = '"' then (·.2) <$> readStringBody c.next
    else if h = '[' then
      let read : Decoder Unit := fun c => do return ((), ← skipValue fuel c)
      (·.2) <$> decodeItems read (c.rest.length + 1) [] c.next
    else if h = '\x7b' then
      let step : Unit → String → Decoder Unit := fun _ _ c => do
        return ((), ← skipValue fuel (← readColon c))
      let (_, c) ← decodeEntries step (c.rest.length + 1) true () c.next
      objectEnd c
    else c.faultAhead .expectedValue

/-! ## Records -/

/-- A field of a record that is being read: how its value is put into what was read of the
record so far. -/
structure Slot (σ : Type) where
  name : String
  isFilled : σ → Bool
  read : σ → Decoder σ

/-- A value under a key of a record. Keys without a slot are passed over, and a slot is filled
once. -/
def decodeSlot {σ : Type} (slots : List (Slot σ)) (s : σ) (key : String) : Decoder σ := fun c =>
  match slots.find? (fun t => t.name == key) with
  | none => do return (s, ← skipValue (c.rest.length + 1) (← readColon c))
  | some t =>
    if t.isFilled s then
      (c.behind '\x7d').fault (.value (.duplicateField key))
    else do t.read s (← readColon c)

/-- The items of a record that is written as an array, in the order of the slots. Items may lack
at the end. -/
def decodeRow {σ : Type} (slots : List (Slot σ)) : Bool → σ → Decoder σ :=
  match slots with
  | [] => fun _ s c => .ok (s, c)
  | t :: rest => fun first s c => do
    let (more, c) ← itemAhead first c
    if more then
      let (s, c) ← t.read s c
      decodeRow rest false s c
    else .ok (s, c)

/-- A record from an object or from an array; `finish` says what lacks, in either form. -/
def decodeRecord {σ α : Type} (title : String) (slots : List (Slot σ)) (empty : σ)
    (finish : Bool → σ → Except Issue α) : Decoder α := fun c => do
  let (h, c) ← c.token
  if h = '\x7b' then
    let (s, c) ← decodeEntries (decodeSlot slots) (c.rest.length + 1) true empty c.next
    match finish false s with
    | .ok a => return (a, ← objectEnd c)
    | .error i => (c.behind '\x7d').fault (.value i)
  else if h = '[' then
    let (s, c) ← decodeRow slots true empty c.next
    match finish true s with
    | .ok a => return (a, ← listEnd c)
    | .error i => (c.behind ']').fault (.value i)
  else wrongType title h c

/-! ## Whole texts -/

def decode {α : Type} (read : Decoder α) (text : String) : Except Fault α := do
  let (a, c) ← read (Cursor.start text.toList)
  let c := c.settle
  if c.rest.isEmpty then return a else c.faultAhead .trailingCharacters

/-- How deep the parts of a value in a text can nest, the value itself counted. -/
def deepest : Nat := 128

/-- The value that a text tells. -/
def valueOf (text : String) : Except Fault Json := decode (decodeValue deepest) text

end CodeSurvey.Json
