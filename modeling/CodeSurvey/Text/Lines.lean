-- The lines of a text. A line feed ends a line, so a text that ends in one
-- has no empty line after it.
import CodeSurvey.Text.Blank

namespace CodeSurvey.Text

/-- A line that was ended by a line feed also loses one carriage return before
it. -/
def dropReturn (line : List Char) : List Char :=
  if line.getLast? = some '\r' then line.dropLast else line

/-- The lines of a text without their ends. What follows the last line feed is a
line only when it is not empty, and keeps its characters as they are. -/
def lines (s : List Char) : List (List Char) :=
  let pieces := s.splitOn '\n'
  pieces.dropLast.map dropReturn ++ (pieces.getLast?.filter (fun l => !l.isEmpty)).toList

/-- The number of lines of a text. -/
def lineCount (s : List Char) : Nat :=
  if s.isEmpty then 0
  else if s.getLast? = some '\n' then s.count '\n'
  else s.count '\n' + 1

end CodeSurvey.Text
