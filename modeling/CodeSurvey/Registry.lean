-- Surveyors read the facts of files in one language; a registry chooses among
-- them by the extension of a file. The first that supports it is taken.
import CodeSurvey.Facts
import CodeSurvey.Language

namespace CodeSurvey

/-! ## Surveyors -/

/-- What a surveyor is told beside the text of a file. -/
structure SurveyOptions where
  /-- The extension of the file, normalized. -/
  extension : String
  /-- Comments are read as well. -/
  docs : Bool
deriving DecidableEq, Repr

/-- The options for a file with the extension. -/
def SurveyOptions.forExtension (ext : String) : SurveyOptions := ⟨normalizedExtension ext, true⟩

/-- A reader of facts. Its survey may break off, which gives none. -/
structure Surveyor where
  language : String
  /-- The extensions it declares, in lower case and without a dot. -/
  extensions : List String
  survey : SurveyOptions → String → Option FileFacts

/-- The surveyor declares the extension, once that is normalized. -/
def Surveyor.supports (s : Surveyor) (ext : String) : Bool :=
  s.extensions.contains (normalizedExtension ext)

/-! ## Registries -/

/-- The surveyors in the order of their registration. -/
structure Registry where
  surveyors : List Surveyor

def Registry.register (r : Registry) (s : Surveyor) : Registry := ⟨r.surveyors ++ [s]⟩

/-- The surveyor for files with the extension. -/
def Registry.surveyorFor (r : Registry) (ext : String) : Option Surveyor :=
  r.surveyors.find? (·.supports (normalizedExtension ext))

/-- Some surveyor takes files with the extension. -/
def Registry.supports (r : Registry) (ext : String) : Bool := (r.surveyorFor ext).isSome

/-- The list with one more text at its place in the order; a text that is there is not
doubled. -/
def insertText (s : String) : List String → List String
  | [] => [s]
  | t :: r => if s = t then t :: r else if s < t then s :: t :: r else t :: insertText s r

/-- All extensions that are declared, in order and each once. -/
def Registry.extensions (r : Registry) : List String :=
  (r.surveyors.flatMap (·.extensions)).foldl (fun acc e => insertText e acc) []

/-- The facts of a file with the extension; none when no surveyor takes it or its survey
breaks off. -/
def Registry.survey (r : Registry) (ext source : String) : Option FileFacts :=
  (r.surveyorFor ext).bind (fun s => s.survey (SurveyOptions.forExtension ext) source)

end CodeSurvey
