-- The surveyors for the languages that can be read, and the registry of them.
import CodeSurvey.Go.Scan
import CodeSurvey.Python.Scan
import CodeSurvey.Registry
import CodeSurvey.TypeScript.Dialect
import CodeSurvey.TypeScript.Scan

namespace CodeSurvey

def Surveyor.typescript : Surveyor where
  language := "typescript"
  extensions := ["ts", "tsx", "mts", "cts", "js", "jsx", "mjs", "cjs"]
  survey options source :=
    let elements := TypeScript.Dialect.ofExtension options.extension == .withElements
    some (TypeScript.survey options.docs elements source)

def Surveyor.python : Surveyor where
  language := "python"
  extensions := ["py", "pyi"]
  survey options source := some (Python.survey options.docs source)

def Surveyor.go : Surveyor where
  language := "go"
  extensions := ["go"]
  survey options source := some (Go.survey options.docs source)

/-- The registry of all languages that can be read. -/
def Registry.builtin : Registry := ⟨[.typescript, .python, .go]⟩

end CodeSurvey
