-- What can be wrong with a JSON value that should be read as a record, and
-- how the complaint reads.
import CodeSurvey.Json.Basic
import CodeSurvey.Text.Quoted

namespace CodeSurvey.Json

/-- What was met where something else was expected. -/
inductive Found where
  | null
  | bool (b : Bool)
  | number (n : Number)
  | text (s : String)
  | sequence
  | map
deriving DecidableEq, Repr

/-- What a value shows of itself in a complaint. -/
def found : Json → Found
  | .null => .null
  | .bool b => .bool b
  | .number n => .number n
  | .text s => .text s
  | .array _ => .sequence
  | .object _ => .map

def ticked (s : String) : String := "\x60" ++ s ++ "\x60"

def Found.describe : Found → String
  | .null => "null"
  | .bool b => "boolean " ++ ticked (if b then "true" else "false")
  | .number (.whole n) => "integer " ++ ticked (String.ofList (intText n))
  | .number (.decimal d e) => "floating point " ++ ticked (String.ofList (decimalText d e))
  | .text s => "string " ++ Text.quoted s
  | .sequence => "sequence"
  | .map => "map"

/-- What is wrong with a value. -/
inductive Issue where
  | invalidType (met : Found) (expected : String)
  | invalidValue (met : Found) (expected : String)
  | invalidLength (length : Nat) (expected : String)
  | unknownVariant (name : String) (known : List String)
  | missingField (name : String)
  | duplicateField (name : String)
  | other (s : String)
deriving DecidableEq, Repr

/-- The words for a choice among names. -/
def oneOf : List String → String
  | [] => "there are no variants"
  | [a] => "expected " ++ ticked a
  | [a, b] => "expected " ++ ticked a ++ " or " ++ ticked b
  | names => "expected one of " ++ ", ".intercalate (names.map ticked)

def Issue.message : Issue → String
  | .invalidType met expected => "invalid type: " ++ met.describe ++ ", expected " ++ expected
  | .invalidValue met expected => "invalid value: " ++ met.describe ++ ", expected " ++ expected
  | .invalidLength n expected => "invalid length " ++ toString n ++ ", expected " ++ expected
  | .unknownVariant name known => "unknown variant " ++ ticked name ++ ", " ++ oneOf known
  | .missingField name => "missing field " ++ ticked name
  | .duplicateField name => "duplicate field " ++ ticked name
  | .other s => s

end CodeSurvey.Json
