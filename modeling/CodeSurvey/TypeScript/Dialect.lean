-- The dialects of TypeScript, which differ in what angle brackets begin.
import CodeSurvey.Language

namespace CodeSurvey.TypeScript

/-- In the plain dialect an angle bracket in front of an operand begins a type; in the other
it begins an element. JavaScript is read in the dialect with elements. -/
inductive Dialect where
  | plain
  | withElements
deriving DecidableEq, Repr

/-- The dialect of a file with the extension. -/
def Dialect.ofExtension (ext : String) : Dialect :=
  if ["ts", "mts", "cts"].contains (bareExtension ext) then .plain else .withElements

end CodeSurvey.TypeScript
