-- The header of a Python definition. It may run over several lines and ends
-- at the first colon outside of brackets and quotes.
import CodeSurvey.Facts
import CodeSurvey.Text.Nested

namespace CodeSurvey.Python

open Text

/-! ## Reading a header -/

/-- A header that has ended: its text before the colon, the text between its outer
parentheses, and the text after them. -/
structure Header where
  text : List Char
  params : Option (List Char)
  tail : List Char
deriving DecidableEq, Repr

/-- Where the reader of a header stands among its outer parentheses. -/
inductive Place where
  | before
  | inside
  | after
deriving DecidableEq, Repr

/-- A header that is being read. Collected texts have their last character first. The
depth has no bounds; a signed word of 32 bits holds the same in every text with fewer than
`2 ^ 31` brackets. -/
structure Reading where
  depth : Int
  quote : Option Char
  place : Place
  text : List Char
  params : List Char
  tail : List Char
deriving DecidableEq, Repr

def Reading.start : Reading := ⟨0, none, .before, [], [], []⟩

/-- The character is taken into the texts to which it belongs. -/
def Reading.keep (r : Reading) (c : Char) : Reading :=
  match r.place with
  | .before => { r with text := c :: r.text }
  | .inside => { r with text := c :: r.text, params := c :: r.params }
  | .after => { r with text := c :: r.text, tail := c :: r.tail }

def Reading.finish (r : Reading) : Header where
  text := r.text.reverse
  params := if r.place = .after then some r.params.reverse else none
  tail := r.tail.reverse

/-- What a character does to a header: it goes on, it has ended, or it has no end. -/
inductive Step where
  | more (r : Reading)
  | done (h : Header)
  | broken
deriving DecidableEq, Repr

/-- One character further. A quote ends at the same mark, whatever stands before
it, and a comment sign outside of brackets leaves the header without an end. -/
def Reading.next (r : Reading) (c : Char) : Step :=
  match r.quote with
  | some q => .more { r.keep c with quote := if c = q then none else some q }
  | none =>
    if c = '"' || c = '\'' then .more { r.keep c with quote := some c }
    else if c = '#' && r.depth == 0 then .broken
    else if c = ':' && r.depth == 0 then .done r.finish
    else if c = '(' || c = '[' || c = '\x7b' then
      let opens := c = '(' && r.depth == 0 && r.place == .before
      let kept := r.keep c
      .more { kept with depth := r.depth + 1, place := if opens then .inside else r.place }
    else if c = ')' || c = ']' || c = '\x7d' then
      let closes := c = ')' && r.depth == 1 && r.place == .inside
      if closes then
        .more { r with depth := 0, place := .after, text := c :: r.text }
      else .more { r.keep c with depth := r.depth - 1 }
    else .more (r.keep c)

def Reading.line (r : Reading) : List Char → Step
  | [] => .more r
  | c :: rest =>
    match r.next c with
    | .more r => r.line rest
    | step => step

/-- The most lines that a header may have. -/
def maxHeaderLines : Nat := 64

/-- The header read on from `r` over at most `fuel` lines, with the number of lines that
it takes. A line feed joins two lines. -/
def readOn (r : Reading) : Nat → List (List Char) → Option (Header × Nat)
  | 0, _ => none
  | _, [] => none
  | fuel + 1, line :: rest =>
    match r.line line with
    | .done h => some (h, 1)
    | .broken => none
    | .more r =>
      match r.next '\n' with
      | .more r => (readOn r fuel rest).map (fun (h, n) => (h, n + 1))
      | _ => none

/-- The header that begins with the first line, and the number of its lines. -/
def readHeader (lines : List (List Char)) : Option (Header × Nat) :=
  readOn Reading.start maxHeaderLines lines

/-! ## Parameters -/

def parameterOf (text : List Char) : Parameter :=
  let (head, values) :=
    match splitOutside '=' text with
    | [] => ([], [])
    | head :: values => (trim head, values)
  let value :=
    if values.isEmpty then none
    else some (String.ofList (singleSpaced (['='].intercalate values)))
  let (name, written) :=
    match splitOutside ':' head with
    | [] => ([], none)
    | [name] => (name, none)
    | name :: written :: _ => (name, some written)
  { name := String.ofList ((trim name).dropWhile (· = '*'))
    writtenType := written.bind typeText
    isOptional := value.isSome
    defaultValue := value }

/-- A mark between parameters that is none itself. -/
def isSeparator (text : List Char) : Bool := text.isEmpty || text = ['*'] || text = ['/']

/-- The name that a method gives to its receiver. -/
def isReceiver (p : Parameter) : Bool := p.name = "self" || p.name = "cls"

/-- The parameters of a list; the first place of a method is its receiver's. -/
def parametersOf (isMethod : Bool) (raw : List Char) : List Parameter :=
  let places := ((splitOutside ',' raw).map trim).zipIdx
  (places.filter (fun (text, _) => !isSeparator text)).filterMap (fun (text, i) =>
    let p := parameterOf text
    if i = 0 && isMethod && isReceiver p then none else some p)

/-- The type after the arrow of a header. -/
def returnType (tail : List Char) : Option String :=
  (dropFront? ['-', '>'] (trim tail)).bind (fun t => typeText (trim t))

end CodeSurvey.Python
