-- Where a parser stands in a TypeScript text: at the start of a token, with
-- the comments in front of it already read.
import CodeSurvey.TypeScript.Tree
import CodeSurvey.Text.Blank

namespace CodeSurvey.TypeScript

/-! ## Characters -/

/-- The character separates tokens and means nothing else. -/
def isSpace (c : Char) : Bool :=
  let n := c.toNat
  (9 ≤ n && n ≤ 13) || n == 0x20 || n == 0xA0 || n == 0x1680 || (0x2000 ≤ n && n ≤ 0x200B) ||
    n == 0x2028 || n == 0x2029 || n == 0x202F || n == 0x205F || n == 0x2060 || n == 0x3000 ||
    n == 0xFEFF

/-- The character ends a line, so that a statement may end without a semicolon. -/
def endsLine (c : Char) : Bool := c = '\n' || c.toNat = 0x2028 || c.toNat = 0x2029

def isMark (c : Char) : Bool :=
  c.toNat ≤ 0x1F || isSpace c || c = ':' || c = ';' || c.toNat = 0x60 || c = '"' || c = '\'' ||
    c = '@' || c = '#' || c = '.' || c = ',' || c = '|' || c = '^' || c = '&' || c = '<' ||
    c = '=' || c = '>' || c = '+' || c = '-' || c = '*' || c = '/' || c = '\\' || c = '%' ||
    c = '?' || c = '!' || c = '~' || c = '(' || c = ')' || c = '[' || c = ']' || c = '\x7b' ||
    c = '\x7d'

/-- The character can stand in a name. -/
def isNameChar (c : Char) : Bool := !isMark c || c = '\\'

def isNameFirst (c : Char) : Bool := isNameChar c && !c.isDigit

def Mark.next (m : Mark) (c : Char) : Mark := ⟨m.offset + 1, if c = '\n' then m.row + 1 else m.row⟩

def Mark.over (m : Mark) (cs : List Char) : Mark := cs.foldl Mark.next m

/-! ## What stands between tokens -/

/-- The characters of a comment up to its end, without the first two; none when it is not
closed. -/
def blockComment? : List Char → Option (List Char)
  | [] => none
  | '*' :: '/' :: _ => some ['*', '/']
  | c :: r => (blockComment? r).map (c :: ·)

/-- The characters of the comment that begins the text. -/
def comment? : List Char → Option (List Char)
  | '/' :: '/' :: r =>
    some ('/' :: '/' :: r.takeWhile (fun c => !endsLine c && c ≠ '\r'))
  | '/' :: '*' :: r => (blockComment? r).map (fun cs => '/' :: '*' :: cs)
  | _ => none

/-- What stands before the next token. -/
structure Gap where
  rest : List Char
  mark : Mark
  /-- The comments, latest first. -/
  comments : List Tree
  /-- A line ends in the gap. -/
  newline : Bool

/-- The gap read on over at most `fuel` characters and comments. -/
def Gap.read : Nat → Gap → Gap
  | 0, g => g
  | fuel + 1, g =>
    match g.rest with
    | [] => g
    | c :: r =>
      if isSpace c then
        Gap.read fuel { g with rest := r, mark := g.mark.next c, newline := g.newline || endsLine c }
      else
        match comment? g.rest with
        | none => g
        | some cs =>
          let stop := g.mark.over cs
          let node := Tree.node .comment none true ⟨g.mark, stop⟩ []
          Gap.read fuel { g with
            rest := g.rest.drop cs.length
            mark := stop
            comments := node :: g.comments
            newline := g.newline || cs.any endsLine }

/-! ## The cursor -/

/-- How far a text may be from the grammar. -/
inductive Tolerance where
  /-- Every token fits, and none is missing. -/
  | exact
  /-- One mark may be missing: a semicolon, or the last closing brace of the text. -/
  | missing
  /-- The last closing brace was missing, and no other mark may be. -/
  | spent
  /-- Tokens in braces may fit nowhere. -/
  | surplus
deriving DecidableEq, Repr

/-- The start of a token. -/
structure Cursor where
  rest : List Char
  mark : Mark
  /-- The number of characters in `rest`. -/
  left : Nat
  /-- The comments before the token that have no place in the tree yet. -/
  comments : List Tree
  /-- A line ends before the token. -/
  newline : Bool
  /-- Elements in angle brackets are read as such, and not as types. -/
  elements : Bool
  /-- What is let pass from here on. -/
  tolerance : Tolerance

/-- The cursor at the first token from a mark on. -/
def Cursor.settle (elements : Bool) (tolerance : Tolerance) (rest : List Char) (mark : Mark)
    (left : Nat) : Cursor :=
  let g := Gap.read (left + 1) ⟨rest, mark, [], false⟩
  ⟨g.rest, g.mark, left - (g.mark.offset - mark.offset), g.comments.reverse, g.newline, elements,
    tolerance⟩

/-- The cursor behind the next `n` characters. -/
def Cursor.advance (c : Cursor) (n : Nat) : Cursor :=
  Cursor.settle c.elements c.tolerance (c.rest.drop n) (c.mark.over (c.rest.take n)) (c.left - n)

/-- The word that begins here: characters of a name. -/
def Cursor.word (c : Cursor) : List Char :=
  match c.rest with
  | [] => []
  | h :: r => if isNameFirst h then h :: r.takeWhile isNameChar else []

def Cursor.atEnd (c : Cursor) : Bool := c.rest.isEmpty

/-- The text goes on with the characters. -/
def Cursor.sees (c : Cursor) (s : String) : Bool := Text.startsWith s.toList c.rest

/-- The text goes on with the word, as a whole. -/
def Cursor.seesWord (c : Cursor) (s : String) : Bool := c.word = s.toList

/-- A statement may end before the next token without a semicolon: the text or the block
ends, or a line does and the token could not go on. -/
def Cursor.mayEnd (c : Cursor) : Bool :=
  match c.rest with
  | [] => true
  | h :: r =>
    if h = '\x7d' then true
    else if !c.newline then false
    else if c.word = ['i', 'n'] || c.word = "instanceof".toList then false
    else match h with
      | '+' => r.head? = some '+'
      | '-' => r.head? = some '-'
      | '!' => r.head? ≠ some '='
      | _ => !(h.toNat = 0x60 || h = ',' || h = '.' || h = ';' || h = '*' || h = '%' || h = '>' ||
          h = '<' || h = '=' || h = '?' || h = '^' || h = '|' || h = '&' || h = '/' || h = ':')

/-! ## Looking ahead -/

/-- The cursor behind the word that begins here. -/
def Cursor.afterWord (c : Cursor) : Cursor := c.advance c.word.length

/-- How the characters between brackets are to be read. -/
inductive Reading where
  | code
  | string (quote : Char)
  | lineComment
  | blockComment

/-- The number of characters up to the bracket that closes the `depth + 1` open ones, that
bracket included, added to `seen`. Brackets in strings and comments do not count. -/
def closingBracket? (seen depth : Nat) (reading : Reading) : List Char → Option Nat
  | [] => none
  | c :: r =>
    match reading with
    | .string q =>
      if c = '\\' then
        match r with
        | [] => none
        | _ :: r => closingBracket? (seen + 2) depth reading r
      else closingBracket? (seen + 1) depth (if c = q then .code else reading) r
    | .lineComment =>
      closingBracket? (seen + 1) depth (if c = '\n' then .code else reading) r
    | .blockComment =>
      let closes := c = '*' && r.head? = some '/'
      closingBracket? (seen + 1) depth (if closes then .code else reading) r
    | .code =>
      if c = '"' || c = '\'' || c.toNat = 0x60 then closingBracket? (seen + 1) depth (.string c) r
      else if c = '/' && r.head? = some '/' then closingBracket? (seen + 1) depth .lineComment r
      else if c = '/' && r.head? = some '*' then closingBracket? (seen + 1) depth .blockComment r
      else if c = '(' || c = '[' || c = '\x7b' then closingBracket? (seen + 1) (depth + 1) .code r
      else if c = ')' || c = ']' || c = '\x7d' then
        match depth with
        | 0 => some (seen + 1)
        | d + 1 => closingBracket? (seen + 1) d .code r
      else closingBracket? (seen + 1) depth .code r

/-- The cursor behind the bracket that closes the one that opens here. -/
def Cursor.behindBracket? (c : Cursor) : Option Cursor :=
  (closingBracket? 1 0 .code c.rest.tail).map c.advance

/-- An arrow follows the bracket that closes the one that opens here. -/
def Cursor.arrowBehind (c : Cursor) : Bool := (c.behindBracket?.map (·.sees "=>")).getD false

/-- A colon follows the bracket that closes the one that opens here. -/
def Cursor.colonBehind (c : Cursor) : Bool := (c.behindBracket?.map (·.sees ":")).getD false

end CodeSurvey.TypeScript
