-- What one line of Python can begin: a decorator, an import, a function or a
-- class. Each recogniser looks at a single line and gives what the line names.
import CodeSurvey.Text.Name
import CodeSurvey.Text.WordChar

namespace CodeSurvey.Python

open Text

/-! ## Indentation -/

/-- The number of bytes of the blanks in front of a line. -/
def indentOf (line : List Char) : Nat :=
  (line.takeWhile isBlank).foldl (fun n c => n + c.utf8Size) 0

/-! ## Decorators -/

def isDecorator (line : List Char) : Bool :=
  match trimStart line with
  | '@' :: c :: _ => !isBlank c
  | _ => false

/-! ## Imports -/

/-- The rest of a line is blank or a comment. -/
def onlyComment (s : List Char) : Bool :=
  match trimStart s with
  | [] => true
  | c :: _ => c = '#'

/-- The characters up to the first place, after at least one of them, from which on there
is at most a comment. -/
def beforeComment : List Char → List Char
  | [] => []
  | c :: r => if onlyComment r then [c] else c :: beforeComment r

/-- What a statement lists after its keyword and the blanks there. When more than one
blank is all that follows, the last of them is the list. -/
def listed? (keyword s : List Char) : Option (List Char) :=
  match dropFront? keyword s with
  | some (c :: r) =>
    if !isBlank c then none
    else if !allBlank r then some (beforeComment (trimStart r))
    else r.getLast?.map ([·])
  | _ => none

/-- The characters of the name of a module. -/
def isModuleChar (c : Char) : Bool := c.isAlphanum || c = '_' || c = '.'

/-- The module and the list of names of a line that imports from a module. -/
def fromImport? (line : List Char) : Option (List Char × List Char) := do
  let rest ← afterKeyword? ['f', 'r', 'o', 'm'] (trimStart line)
  let source := rest.takeWhile isModuleChar
  let after := rest.dropWhile isModuleChar
  if source.isEmpty || trimStart after == after then none
  let names ← listed? ['i', 'm', 'p', 'o', 'r', 't'] (trimStart after)
  some (source, names)

/-- The list of modules of a line that imports whole modules. -/
def import? (line : List Char) : Option (List Char) :=
  listed? ['i', 'm', 'p', 'o', 'r', 't'] (trimStart line)

/-! ## Definitions -/

/-- What a line declares. -/
inductive Declared where
  | function (name : List Char) (isAsync : Bool)
  | class_ (name : List Char)
deriving DecidableEq, Repr

/-- The function of a line that begins a definition: its name stands before an opening
parenthesis. -/
def function? (line : List Char) : Option Declared := do
  let text := trimStart line
  let later := afterKeyword? ['a', 's', 'y', 'n', 'c'] text
  let rest ← afterKeyword? ['d', 'e', 'f'] (later.getD text)
  let (name, after) ← takeName? rest
  if (trimStart after).head? = some '(' then some (.function name later.isSome) else none

/-- The class of a line that begins a class: a character that is part of a word may
not follow the name. -/
def class? (line : List Char) : Option Declared := do
  let rest ← afterKeyword? ['c', 'l', 'a', 's', 's'] (trimStart line)
  let (name, after) ← takeName? rest
  if (after.head?.map isWordChar).getD false then none else some (.class_ name)

def declared? (line : List Char) : Option Declared := (function? line).or (class? line)

end CodeSurvey.Python
