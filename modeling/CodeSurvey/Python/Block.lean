-- The block under a Python header: the lines that are indented further, and
-- the comment string in front of them.
import CodeSurvey.Python.Line

namespace CodeSurvey.Python

open Text

/-- The lines of the block that follows a header with the indent: all up to the next
line that is not blank and not indented further, without blank lines at the end. -/
def blockOf (indent : Nat) (after : List (List Char)) : List (List Char) :=
  ((after.takeWhile (fun l => allBlank l || decide (indent < indentOf l))).reverse.dropWhile
    allBlank).reverse

/-- The three marks that open the string of a line, and what follows them. A letter that
makes the string raw or says how it is encoded may stand in front. -/
def openedString? (line : List Char) : Option (List Char × List Char) :=
  let body :=
    match line with
    | c :: r => if c = 'r' || c = 'R' || c = 'u' || c = 'U' then r else line
    | [] => []
  match body with
  | '"' :: '"' :: '"' :: r => some (['"', '"', '"'], r)
  | '\'' :: '\'' :: '\'' :: r => some (['\'', '\'', '\''], r)
  | _ => none

/-- The lines of a string up to the marks that close it; none when it is not closed. -/
def closedLines? (marks : List Char) : List (List Char) → Option (List (List Char))
  | [] => none
  | line :: rest =>
    match cutAt? marks (trim line) with
    | some (last, _) => some [trim last]
    | none => (closedLines? marks rest).map (trim line :: ·)

/-- The string that a block begins with, when it is a string in triple quotes. -/
def docOf (block : List (List Char)) : Option String :=
  match block.dropWhile allBlank with
  | [] => none
  | first :: rest => do
    let (marks, opened) ← openedString? (trim first)
    match cutAt? marks opened with
    | some (doc, _) => some (String.ofList (trim doc))
    | none =>
      let more ← closedLines? marks rest
      some (String.ofList (trim (['\n'].intercalate (trim opened :: more))))

end CodeSurvey.Python
