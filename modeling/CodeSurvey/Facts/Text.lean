-- Lists of parameters as one text, and read back from it.
import CodeSurvey.Facts.Form
import CodeSurvey.Json.Decode

namespace CodeSurvey

open Json

/-- What was read of a parameter so far. -/
structure ParameterDraft where
  name : Option String
  writtenType : Option (Option String)
  isOptional : Option Bool
  defaultValue : Option (Option String)

namespace ParameterDraft

def empty : ParameterDraft := ⟨none, none, none, none⟩

def slot {α : Type} (name : String) (get : ParameterDraft → Option α) (read : Decoder α)
    (set : ParameterDraft → α → ParameterDraft) : Slot ParameterDraft where
  name := name
  isFilled d := (get d).isSome
  read d c := do
    let (a, c) ← read c
    return (set d a, c)

def slots : List (Slot ParameterDraft) :=
  [slot "name" (·.name) decodeText (fun d a => { d with name := some a }),
    slot "type_annotation" (·.writtenType) (decodeOption decodeText)
      (fun d a => { d with writtenType := some a }),
    slot "optional" (·.isOptional) decodeBool (fun d a => { d with isOptional := some a }),
    slot "default_value" (·.defaultValue) (decodeOption decodeText)
      (fun d a => { d with defaultValue := some a })]

/-- The parameter, which needs a name. `asRow` says that it is written as an array. -/
def finish (asRow : Bool) (d : ParameterDraft) : Except Issue Parameter :=
  match d.name with
  | some name =>
    .ok ⟨name, d.writtenType.getD none, d.isOptional.getD false, d.defaultValue.getD none⟩
  | none =>
    .error (if asRow then .invalidLength 0 "struct Parameter with 4 elements"
      else .missingField "name")

end ParameterDraft

def Parameter.decode : Decoder Parameter :=
  decodeRecord "struct Parameter" ParameterDraft.slots ParameterDraft.empty ParameterDraft.finish

def Parameter.listText (ps : List Parameter) : String :=
  (Json.array (ps.map Parameter.toJson)).render

def Parameter.ofListText (s : String) : Except Fault (List Parameter) :=
  Json.decode (decodeList Parameter.decode) s

end CodeSurvey
