-- Parsers of TypeScript: tokens, nodes, repetition, and the goals through
-- which the rules of the grammar refer to each other.
import CodeSurvey.TypeScript.Cursor

namespace CodeSurvey.TypeScript

/-- Trees that stand side by side, with the comments between them. -/
abbrev Forest := List Tree

/-- A parser reads on from a cursor, or does not fit there. -/
abbrev Parse (α : Type) := StateT Cursor Option α

namespace Parse

/-! ## Looking ahead -/

def refuse {α : Type} : Parse α := fun _ => none

def here : Parse Cursor := fun c => some (c, c)

def ask (p : Cursor → Bool) : Parse Bool := fun c => some (p c, c)

/-- The parser fits only where the test holds. -/
def guardHere (p : Cursor → Bool) : Parse Unit := fun c => if p c then some ((), c) else none

/-- The first parser where it fits, else the second. -/
def or {α : Type} (a b : Parse α) : Parse α := fun c =>
  match a c with
  | some r => some r
  | none => b c

/-- The parser where it fits, and else nothing. -/
def maybe (a : Parse Forest) : Parse Forest := or a (pure [])

/-- The parser that the cursor asks for. -/
def look (f : Cursor → Parse Forest) : Parse Forest := fun c => f c c

/-- The parser where the test holds, and else nothing. -/
def when (p : Cursor → Bool) (a : Parse Forest) : Parse Forest := fun c =>
  if p c then a c else some ([], c)

/-! ## Tokens -/

/-- The next `n` characters as one node, behind the comments before it. -/
def take (kind : Kind) (named : Bool) (n : Nat) : Parse Forest := fun c =>
  let node := Tree.node kind none named ⟨c.mark, c.mark.over (c.rest.take n)⟩ []
  some (c.comments ++ [node], c.advance n)

def symbol (s : String) : Parse Forest := fun c =>
  if c.sees s then take (.word s) false s.length c else none

def keyword (s : String) : Parse Forest := fun c =>
  if c.seesWord s then take (.word s) false s.length c else none

/-- Any word, as a name of the given kind. -/
def anyName (kind : Kind) : Parse Forest := fun c =>
  let n := c.word.length
  if n = 0 then none else take kind true n c

/-! ## Nodes -/

def isComment (t : Tree) : Bool := t.kind == .comment

/-- One node over the trees. Comments in front of its first token stay outside. -/
def wrap (kind : Kind) (parts : Forest) : Forest :=
  let inner := parts.dropWhile isComment
  match inner.head?, inner.getLast? with
  | some first, some last =>
    parts.takeWhile isComment ++
      [Tree.node kind none true ⟨first.span.start, last.span.stop⟩ inner]
  | _, _ => parts

/-- The trees that are no comments take a part in their parent. -/
def inField (f : Field) (parts : Forest) : Forest :=
  parts.map (fun t => if isComment t then t else t.inField f)

/-- What the parser reads, as one node. -/
def node (kind : Kind) (a : Parse Forest) : Parse Forest := wrap kind <$> a

/-- What the parser reads, in a part of its parent. -/
def part (f : Field) (a : Parse Forest) : Parse Forest := inField f <$> a

/-- What two parsers read one after the other. -/
def andThen (a b : Parse Forest) : Parse Forest := do
  let x ← a
  let y ← b
  pure (x ++ y)

instance : Append (Parse Forest) := ⟨andThen⟩

/-- What all parsers read one after the other. -/
def all : List (Parse Forest) → Parse Forest
  | [] => pure []
  | a :: r => a ++ all r

def first : List (Parse Forest) → Parse Forest
  | [] => refuse
  | a :: r => or a (first r)

/-! ## Repetition -/

/-- The parser as often as it gives something, at most `fuel` times; `read` stands latest
first. -/
def manyFrom (a : Parse (Option Forest)) : Nat → List Forest → Parse Forest
  | 0, read => pure read.reverse.flatten
  | fuel + 1, read => do
    match ← a with
    | some f => manyFrom a fuel (f :: read)
    | none => pure read.reverse.flatten

/-- The parser as often as it gives something. -/
def many (a : Parse (Option Forest)) : Parse Forest := fun c => manyFrom a (c.left + 1) [] c

/-- The parser as often as it fits. -/
def manyFit (a : Parse Forest) : Parse Forest :=
  many (or (some <$> a) (pure none))

/-- The parser as often as the test does not stop it. -/
def manyUntil (stop : Cursor → Bool) (a : Parse Forest) : Parse Forest :=
  many (do if ← ask stop then pure none else some <$> a)

/-- Items with commas between them up to a mark, which is read too. Places may be
empty. -/
def listed (close : String) (item : Parse Forest) : Parse Forest :=
  manyUntil (·.sees close) (or (symbol ",") item) ++ symbol close

/-- The end of a statement: a semicolon, or a place where none is needed or where it may be
missing. -/
def endStatement : Parse Forest := fun c =>
  if c.tolerance = .spent then none
  else if c.sees ";" then symbol ";" c
  else if c.mayEnd then some ([], c)
  else if c.tolerance = .missing then some ([], { c with tolerance := .exact })
  else none

/-! ## What does not fit -/

/-- The parser under a tolerance of its own. -/
def under (t : Tolerance) (a : Parse Forest) : Parse Forest := fun c =>
  (a { c with tolerance := t }).map fun r => (r.1, { r.2 with tolerance := c.tolerance })

/-- The token that stands here, as something that does not fit. -/
def strayToken : Parse Forest := look fun c => take (.other "stray") false (max c.word.length 1)

/-- The parser, or a token that does not fit where such tokens are let pass. -/
def orStray (a : Parse Forest) : Parse Forest :=
  or a (look fun c => if c.tolerance = .surplus && !c.atEnd then strayToken else refuse)

/-- The brace that closes a body; at the end of the text it may be missing. -/
def closingBrace : Parse Forest := fun c =>
  if c.atEnd && c.tolerance = .missing then some ([], { c with tolerance := .spent })
  else symbol "\x7d" c

/-- A body: items in braces. Where tokens may fit nowhere, the brace that closes it is looked
for first. -/
def braced (item : Parse Forest) : Parse Forest := look fun c =>
  if c.tolerance = .surplus && c.behindBracket?.isNone then refuse
  else symbol "\x7b" ++ manyUntil (fun c => c.sees "\x7d" || c.atEnd) item ++ closingBrace

end Parse

/-! ## Goals -/

/-- The rules through which the grammar refers to itself. -/
inductive Goal where
  | statement
  | expression
  | operation
  | unary
  | type
  | pattern
  | element
deriving DecidableEq, Repr

abbrev Rules := Goal → Parse Forest

end CodeSurvey.TypeScript
