-- Readers turn JSON values into records. A record is read from an object by
-- the names of its fields or from an array by their order. Entries are checked
-- in the order in which they stand, so the first wrong one is the one reported;
-- missing fields are looked for after that.
import CodeSurvey.Json.Issue
import CodeSurvey.Text.Number

namespace CodeSurvey.Json

abbrev Reads (α : Type) := Json → Except Issue α

/-! ## Single values -/

def readText : Reads String
  | .text s => .ok s
  | v => .error (.invalidType v.found "a string")

def readPath : Reads String
  | .text s => .ok s
  | v => .error (.invalidType v.found "path string")

def readBool : Reads Bool
  | .bool b => .ok b
  | v => .error (.invalidType v.found "a boolean")

/-- A whole number from `lo` up to `hi`. -/
def readInt (expected : String) (lo hi : Int) : Reads Int
  | .number (.whole n) =>
    if lo ≤ n ∧ n ≤ hi then .ok n else .error (.invalidValue (.number (.whole n)) expected)
  | v => .error (.invalidType v.found expected)

/-- A number without a sign that fits so many bits. -/
def readNat (expected : String) (bits : Nat) : Reads Nat := fun v =>
  (·.toNat) <$> readInt expected 0 (Text.wordSize bits - 1) v

def readUInt8 : Reads UInt8 := fun v => UInt8.ofNat <$> readNat "u8" 8 v

def readUInt32 : Reads UInt32 := fun v => UInt32.ofNat <$> readNat "u32" 32 v

def readUInt64 : Reads UInt64 := fun v => UInt64.ofNat <$> readNat "u64" 64 v

def readCount : Reads UInt64 := fun v => UInt64.ofNat <$> readNat "usize" 64 v

/-- A number of 64 bits with a sign. -/
def readInt64 : Reads Int64 := fun v =>
  Int64.ofInt <$> readInt "i64" (-(Text.wordSize 63)) (Text.wordSize 63 - 1) v

/-- None for null, and otherwise what the reader gives. -/
def readOption {α : Type} (read : Reads α) : Reads (Option α)
  | .null => .ok none
  | v => some <$> read v

/-- All items of an array, in order. -/
def readList {α : Type} (read : Reads α) : Reads (List α)
  | .array items => items.mapM read
  | v => .error (.invalidType v.found "a sequence")

def readAny : Reads Json := .ok

/-- One of a list of names, written as a string, or as an object with that name as
its only key and null under it. -/
def readName {α : Type} (known : List (String × α)) : Reads α
  | .text s => named s
  | .object [(k, v)] => do
    let a ← named k
    match v with
    | .null => .ok a
    | v => .error (.invalidType v.found "unit")
  | .object _ => .error (.invalidValue .map "map with a single key")
  | v => .error (.invalidType v.found "string or map")
where
  /-- The item with the name. -/
  named (s : String) : Except Issue α :=
    match known.find? (fun e => e.1 == s) with
    | some (_, a) => .ok a
    | none => .error (.unknownVariant s (known.map (·.1)))

/-! ## Records -/

/-- How the fields of a record are read. -/
structure Fields (α : Type) where
  /-- The fields in their order, each with the check of its value. -/
  checks : List (String × (Json → Except Issue Unit))
  /-- The record from the entries of an object. -/
  fromEntries : List (String × Json) → Except Issue α
  /-- The record from the items of an array, with the words for what is expected and
  the number of fields before; the rest of the items is returned. -/
  fromItems : String → Nat → List Json → Except Issue (α × Nat × List Json)

/-- One field. `absent` stands in for it when an object lacks its key, and `short`
when an array is too short. -/
def field {α : Type} (name : String) (read : Reads α) (absent short : Option α) : Fields α where
  checks := [(name, fun v => (fun _ => ()) <$> read v)]
  fromEntries entries :=
    match lookup name entries with
    | some v => read v
    | none =>
      match absent with
      | some a => .ok a
      | none => .error (.missingField name)
  fromItems expected n
    | v :: r => (fun a => (a, n + 1, r)) <$> read v
    | [] =>
      match short with
      | some a => .ok (a, n + 1, [])
      | none => .error (.invalidLength n expected)

def required {α : Type} (name : String) (read : Reads α) : Fields α := field name read none none

/-- A field with a value that stands in for it wherever it lacks. -/
def defaulted {α : Type} (name : String) (read : Reads α) (a : α) : Fields α :=
  field name read (some a) (some a)

/-- A field that may be null, and that an object may leave out. -/
def optional {α : Type} (name : String) (read : Reads α) : Fields (Option α) :=
  field name (readOption read) (some none) none

def Fields.pure {α : Type} (a : α) : Fields α := ⟨[], fun _ => .ok a, fun _ n r => .ok (a, n, r)⟩

/-- The fields of the first record before those of the second. -/
def Fields.seq {α β : Type} (f : Fields (α → β)) (x : Fields α) : Fields β where
  checks := f.checks ++ x.checks
  fromEntries entries := do
    let g ← f.fromEntries entries
    let a ← x.fromEntries entries
    .ok (g a)
  fromItems expected n items := do
    let (g, n, items) ← f.fromItems expected n items
    let (a, n, items) ← x.fromItems expected n items
    .ok (g a, n, items)

instance : Applicative Fields where
  pure := Fields.pure
  seq f x := f.seq (x ())

/-- Every entry whose key is a field passes the check of that field. -/
def Fields.check {α : Type} (f : Fields α) : List (String × Json) → Except Issue Unit
  | [] => .ok ()
  | (k, v) :: r =>
    match f.checks.find? (fun c => c.1 == k) with
    | some (_, test) => do test v; f.check r
    | none => f.check r

/-- The record from the entries of an object; unknown keys are passed over. -/
def Fields.ofEntries {α : Type} (f : Fields α) (entries : List (String × Json)) :
    Except Issue α := do
  f.check entries
  f.fromEntries entries

/-- The words for a number of elements. -/
def elements (n : Nat) : String := toString n ++ (if n = 1 then " element" else " elements")

/-- The record from an object or from an array with an item for each field. -/
def Fields.read {α : Type} (f : Fields α) (name : String) : Reads α
  | .object entries => f.ofEntries entries
  | .array items => do
    let expected := name ++ " with " ++ elements f.checks.length
    let (a, _, rest) ← f.fromItems expected 0 items
    if rest.isEmpty then .ok a
    else .error (.invalidLength items.length "fewer elements in array")
  | v => .error (.invalidType v.found name)

/-! ## Tagged records -/

/-- A record that names its kind under a tag, beside its fields. In an array the tag
comes first. -/
def readTagged {α : Type} (tag name : String) (kinds : List (String × String × Fields α)) :
    Reads α
  | .object entries =>
    match lookup tag entries with
    | none => .error (.missingField tag)
    | some t => do
      let (_, fields) ← kindOf t
      fields.ofEntries (entries.filter (fun e => e.1 != tag))
  | .array [] => .error (.missingField tag)
  | .array (t :: items) => do
    let (title, fields) ← kindOf t
    let expected := title ++ " with " ++ elements fields.checks.length
    let (a, _, rest) ← fields.fromItems expected 0 items
    if rest.isEmpty then .ok a
    else .error (.invalidLength items.length
      (elements (items.length - rest.length) ++ " in sequence"))
  | v => .error (.invalidType v.found ("internally tagged enum " ++ name))
where
  /-- The title and the fields of the kind that a tag names. -/
  kindOf : Json → Except Issue (String × Fields α)
    | .text s =>
      match kinds.find? (fun k => k.1 == s) with
      | some (_, title, fields) => .ok (title, fields)
      | none => .error (.unknownVariant s (kinds.map (·.1)))
    | v => .error (.invalidType v.found "variant identifier")

end CodeSurvey.Json
