-- Literals of TypeScript: strings, numbers, regular expressions and templates.
import CodeSurvey.TypeScript.Grammar.Basic

namespace CodeSurvey.TypeScript.Grammar

open Parse

/-- The number of characters of a string behind its opening quote, the closing one
included. It may not run over the end of a line, unless that is escaped. -/
def stringLength? (quote : Char) : List Char → Option Nat
  | [] => none
  | '\\' :: _ :: r => (stringLength? quote r).map (· + 2)
  | c :: r =>
    if c = quote then some 1
    else if c = '\n' || c = '\r' then none
    else (stringLength? quote r).map (· + 1)

/-- A string in single or double quotes. -/
def string : Parse Forest := fun c =>
  match c.rest with
  | q :: r =>
    if q = '"' || q = '\'' then
      match stringLength? q r with
      | some n => take .string true (n + 1) c
      | none => none
    else none
  | [] => none

/-- A string among the attributes of an element, which may run over lines and knows no
escapes. -/
def attributeString : Parse Forest := fun c =>
  match c.rest with
  | q :: r =>
    if (q = '"' || q = '\'') && r.contains q then
      take .string true ((r.takeWhile (· ≠ q)).length + 2) c
    else none
  | [] => none

/-- The number of characters of a regular expression behind its opening slash, with the
closing slash. A slash between brackets does not close it. -/
def regexLength? (inClass : Bool) : List Char → Option Nat
  | [] => none
  | '\\' :: c :: r => if c = '\n' then none else (regexLength? inClass r).map (· + 2)
  | c :: r =>
    if c = '\n' then none
    else if c = '/' && !inClass then some 1
    else
      let inClass := if c = '[' then true else if c = ']' then false else inClass
      (regexLength? inClass r).map (· + 1)

def regex : Parse Forest := fun c =>
  match c.rest with
  | '/' :: r =>
    match regexLength? false r with
    | some n => take (.other "regex") true (n + 1 + ((r.drop n).takeWhile Char.isAlpha).length) c
    | none => none
  | _ => none

/-- The number of characters of a number: digits, letters and points, with the sign of an
exponent. -/
def numberLength : List Char → Nat
  | [] => 0
  | c :: r =>
    if (c = 'e' || c = 'E') then
      match r with
      | s :: d :: r => if (s = '+' || s = '-') && d.isDigit then numberLength r + 3
          else numberLength (s :: d :: r) + 1
      | r => numberLength r + 1
    else if c.isAlphanum || c = '_' || c = '.' then numberLength r + 1
    else 0

/-- The number of characters of a hexadecimal, octal or binary number. -/
def radixLength (cs : List Char) : Nat := (cs.takeWhile (fun c => c.isAlphanum || c = '_')).length

/-- The text goes on with a number. -/
def numberAhead (c : Cursor) : Bool :=
  match c.rest with
  | '.' :: d :: _ => d.isDigit
  | d :: _ => d.isDigit
  | [] => false

def number : Parse Forest := fun c =>
  if !numberAhead c then none
  else
    let n :=
      match c.rest with
      | '0' :: x :: _ =>
        if x = 'x' || x = 'X' || x = 'o' || x = 'O' || x = 'b' || x = 'B' then radixLength c.rest
        else numberLength c.rest
      | cs => numberLength cs
    take (.other "number") true n c

/-- The number of characters of a template up to its end or to the next hole in it, added
to `seen`. -/
def templateRun (seen : Nat) : List Char → Nat
  | [] => seen
  | '\\' :: _ :: r => templateRun (seen + 2) r
  | '$' :: '\x7b' :: _ => seen
  | c :: r => if c.toNat = 0x60 then seen else templateRun (seen + 1) r

/-- The next `n` characters as they are, without looking for a token behind them. -/
def takeRaw (kind : Kind) (named : Bool) (n : Nat) : Parse Forest := fun c =>
  let text := c.rest.take n
  let stop := c.mark.over text
  let node := Tree.node kind none named ⟨c.mark, stop⟩ []
  some (c.comments ++ [node],
    { c with rest := c.rest.drop n, mark := stop, left := c.left - n, comments := [] })

/-- The characters of a template or element up to what ends the run; nothing when there
are none. -/
def rawRun (name : String) (length : List Char → Nat) : Parse Forest := fun c =>
  let n := length c.rest
  if n = 0 then some ([], c) else takeRaw (.other name) true n c

/-- A template, whose holes are read by the given parser. -/
def template (name : String) (hole : Parse Forest) : Parse Forest :=
  node (.other name) (fun c =>
    if c.sees "\x60" then
      (takeRaw (.word "\x60") false 1 ++
        many (do
          let run ← rawRun "string_fragment" (templateRun 0)
          if ← ask (·.sees "$\x7b") then
            let inner ← node (.other "template_substitution") (symbol "$\x7b" ++ hole ++ closeHole)
            pure (some (run ++ inner))
          else if run.isEmpty then pure none
          else pure (some run)) ++
        symbol "\x60") c
    else none)
where
  /-- The brace behind a hole. The characters after it belong to the template. -/
  closeHole : Parse Forest := fun c =>
    if c.sees "\x7d" then takeRaw (.word "\x7d") false 1 c else none

end CodeSurvey.TypeScript.Grammar
