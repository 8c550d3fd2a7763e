-- The lines of a Go declaration, and the comment above it. A declaration ends
-- on the line on which its braces balance.
import CodeSurvey.Text.Blank

namespace CodeSurvey.Go

open Text

/-- The braces that are met on the way: how many are open, and whether there was
one. -/
structure Braces where
  depth : Int
  opened : Bool
deriving DecidableEq, Repr

def Braces.start : Braces := ⟨0, false⟩

/-- The braces after the rest of a line; those in strings do not count. A mark that
opens a string is closed by any such mark. -/
def Braces.over (b : Braces) (inString : Bool) : List Char → Braces
  | [] => b
  | c :: r =>
    if c = '"' || c.toNat = 0x60 then b.over (!inString) r
    else if c = '\x7b' && !inString then Braces.over ⟨b.depth + 1, true⟩ inString r
    else if c = '\x7d' && !inString then Braces.over { b with depth := b.depth - 1 } inString r
    else b.over inString r

/-- The braces after a line. What follows two slashes does not count. -/
def Braces.line (b : Braces) (line : List Char) : Braces := b.over false (before ['/', '/'] line)

/-- The number of lines that follow the first one up to the line on which no brace is
open; all of them when there is no such line. -/
def extraLines (b : Braces) : List (List Char) → Nat
  | [] => 0
  | line :: rest =>
    let b := b.line line
    if !b.opened || b.depth ≤ 0 then 0
    else if rest.isEmpty then 0
    else extraLines b rest + 1

/-- The texts of the comment lines in front, without their slashes. -/
def commentLines : List (List Char) → List (List Char)
  | [] => []
  | line :: rest =>
    match dropFront? ['/', '/'] (trim line) with
    | some text => trim text :: commentLines rest
    | none => []

/-- The comment in the lines above a declaration, of which the nearest comes first: all
lines that begin with two slashes, down to the declaration. -/
def docAbove (above : List (List Char)) : Option String :=
  let comment := commentLines above
  if comment.isEmpty then none
  else some (String.ofList (['\n'].intercalate comment.reverse))

end CodeSurvey.Go
