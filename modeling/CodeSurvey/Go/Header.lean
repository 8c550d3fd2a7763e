-- The header of a Go function: its parameters, its results, and the text that
-- stands for it.
import CodeSurvey.Facts
import CodeSurvey.Text.Nested

namespace CodeSurvey.Go

open Text

/-! ## Parentheses -/

/-- The text up to the parenthesis that closes the `depth + 1` open ones, and what
follows it. -/
def closing? (depth : Nat) : List Char → Option (List Char × List Char)
  | [] => none
  | c :: r =>
    if c = ')' then
      match depth with
      | 0 => some ([], r)
      | d + 1 => (closing? d r).map (fun (a, b) => (c :: a, b))
    else
      (closing? (if c = '(' then depth + 1 else depth) r).map (fun (a, b) => (c :: a, b))

/-! ## Parameters -/

/-- The text without any three dots in front of it. -/
def dropDots : List Char → List Char
  | '.' :: '.' :: '.' :: r => dropDots r
  | s => s

/-- The name and the type of one parameter, as far as they are written. -/
def nameAndType (text : List Char) : List Char × Option String :=
  let name := text.takeWhile (fun c => !isBlank c)
  let rest := text.drop name.length
  (dropDots name, if rest.isEmpty then none else typeText rest.tail)

/-- The parameters of a list. A name without a type takes the type of the next name that
has one. -/
def parametersOf (raw : List Char) : List Parameter :=
  let texts := ((splitOutside ',' raw).map trim).filter (!·.isEmpty)
  (texts.foldr (fun text (params, next) =>
    let (name, type) := nameAndType text
    let type := type.or next
    ({ Parameter.called (String.ofList name) with writtenType := type } :: params, type))
    (([] : List Parameter), (none : Option String))).1

/-! ## Texts -/

/-- The text of lines up to the first brace, with even spaces. -/
def headerText (lines : List (List Char)) : String :=
  String.ofList (singleSpaced (before ['\x7b'] (['\n'].intercalate lines)))

/-- The parameters and the result of a function whose parameters begin the text. When the
parenthesis is not closed in it, neither is known. -/
def parametersAndResult (rest : List Char) : List Parameter × Option String :=
  match closing? 0 rest with
  | some (params, after) => (parametersOf params, typeText (trim (before ['\x7b'] after)))
  | none => ([], none)

/-- The name of the type that a receiver names. -/
def receiverName (receiver : List Char) : List Char :=
  match (words receiver).getLast? with
  | some word => before ['['] (word.dropWhile (· = '*'))
  | none => ['R', 'e', 'c', 'e', 'i', 'v', 'e', 'r']

end CodeSurvey.Go
