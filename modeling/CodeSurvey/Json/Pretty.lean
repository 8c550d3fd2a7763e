-- The text of a value in lines: each item and entry on a line of its own, two
-- blanks further in than what it belongs to.
import CodeSurvey.Json.Basic

namespace CodeSurvey.Json

/-- A new line, so many steps in. -/
def newLine (depth : Nat) : List Char := '\n' :: List.replicate (2 * depth) ' '

mutual

/-- The text of a value that stands so many steps in. -/
def lines (depth : Nat) : Json → List Char
  | .array [] => ['[', ']']
  | .array (v :: r) =>
    '[' :: newLine (depth + 1) ++ lines (depth + 1) v ++ itemLines (depth + 1) r ++
      newLine depth ++ [']']
  | .object [] => ['\x7b', '\x7d']
  | .object ((k, v) :: r) =>
    '\x7b' :: newLine (depth + 1) ++ stringText k ++ ':' :: ' ' :: lines (depth + 1) v ++
      entryLines (depth + 1) r ++ newLine depth ++ ['\x7d']
  | .null => chars .null
  | .bool b => chars (.bool b)
  | .number n => n.chars
  | .text s => stringText s

/-- The items behind the first, each behind a comma. -/
def itemLines (depth : Nat) : List Json → List Char
  | [] => []
  | v :: r => ',' :: newLine depth ++ lines depth v ++ itemLines depth r

/-- The entries behind the first, each behind a comma. -/
def entryLines (depth : Nat) : List (String × Json) → List Char
  | [] => []
  | (k, v) :: r =>
    ',' :: newLine depth ++ stringText k ++ ':' :: ' ' :: lines depth v ++ entryLines depth r

end

/-- The text of a value in lines. -/
def pretty (v : Json) : String := String.ofList (lines 0 v)

end CodeSurvey.Json
