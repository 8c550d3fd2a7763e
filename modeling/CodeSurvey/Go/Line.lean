-- What one line of Go can begin: an import, a block of imports, a type, a
-- function or a method. Declarations begin in the first column.
import CodeSurvey.Text.Name

namespace CodeSurvey.Go

open Text

/-! ## Imports -/

/-- The line opens a block of imports. -/
def opensImports (line : List Char) : Bool :=
  match dropFront? ['i', 'm', 'p', 'o', 'r', 't'] (trimStart line) with
  | some rest => (trimStart rest).head? = some '('
  | none => false

/-- The line closes a block of imports. -/
def closesImports (line : List Char) : Bool := trim line = [')']

/-- The path between quotes in front of a text. It is not empty. -/
def quotedPath? : List Char → Option (List Char)
  | '"' :: r =>
    let path := r.takeWhile (· ≠ '"')
    if path.isEmpty || path.length = r.length then none else some path
  | _ => none

/-- The alias in front of a path, a name or a dot with the characters of a name after
it, and what follows it. -/
def takeAlias? : List Char → Option (List Char × List Char)
  | [] => none
  | c :: r =>
    if isNameStart c || c = '.' then
      some (c :: r.takeWhile isAsciiWord, r.dropWhile isAsciiWord)
    else none

/-- The alias, if any, and the path of one import. -/
def importSpec? (s : List Char) : Option (Option (List Char) × List Char) :=
  match takeAlias? s with
  | some (name, rest) =>
    if trimStart rest == rest then none
    else (quotedPath? (trimStart rest)).map (some name, ·)
  | none => (quotedPath? s).map (none, ·)

/-- The import that a line in a block of imports names. -/
def blockImport? (line : List Char) : Option (Option (List Char) × List Char) :=
  importSpec? (trimStart line)

/-- The import of a line that imports one package. -/
def import? (line : List Char) : Option (Option (List Char) × List Char) :=
  (afterKeyword? ['i', 'm', 'p', 'o', 'r', 't'] (trimStart line)).bind importSpec?

/-! ## Types -/

/-- The brackets in front of a text are cut off; with whether there were any that are
closed. -/
def skipBrackets : List Char → Bool × List Char
  | '[' :: r =>
    match r.dropWhile (· ≠ ']') with
    | _ :: after => (true, after)
    | [] => (false, '[' :: r)
  | s => (false, s)

/-- The head of a type declaration. -/
structure TypeHead where
  name : List Char
  /-- Brackets follow the name. -/
  bracketed : Bool
  /-- The first word of what the type is. -/
  underlying : List Char
deriving DecidableEq, Repr

/-- The word in front of a text that can begin a type. -/
def typeWord : List Char → List Char
  | [] => []
  | c :: r =>
    if isNameStart c || c = '*' || c = '[' then c :: r.takeWhile (fun c => !isBlank c) else []

def type? (line : List Char) : Option TypeHead := do
  let rest ← afterKeyword? ['t', 'y', 'p', 'e'] line
  let (name, after) ← takeName? rest
  let (bracketed, after) := skipBrackets (trimStart after)
  let after := trimStart after
  let after :=
    match after with
    | '=' :: r => trimStart r
    | s => s
  some ⟨name, bracketed, typeWord after⟩

/-! ## Functions and methods -/

/-- The head of a function or method. -/
structure FuncHead where
  /-- The text between the receiver's parentheses. -/
  receiver : Option (List Char)
  name : List Char
  /-- Type parameters follow the name. -/
  generic : Bool
  /-- What follows the parenthesis that opens the parameters. -/
  rest : List Char
deriving DecidableEq, Repr

def method? (line : List Char) : Option FuncHead := do
  let rest ← dropFront? ['f', 'u', 'n', 'c'] line
  match trimStart rest with
  | '(' :: r =>
    match r.dropWhile (· ≠ ')') with
    | _ :: after => do
      let (name, after) ← takeName? (trimStart after)
      match trimStart after with
      | '(' :: params => some ⟨some (r.takeWhile (· ≠ ')')), name, false, params⟩
      | _ => none
    | [] => none
  | _ => none

def function? (line : List Char) : Option FuncHead := do
  let rest ← afterKeyword? ['f', 'u', 'n', 'c'] line
  let (name, after) ← takeName? rest
  let (generic, after) := skipBrackets (trimStart after)
  match trimStart after with
  | '(' :: params => some ⟨none, name, generic, params⟩
  | _ => none

/-- The function or method that a line declares. -/
def func? (line : List Char) : Option FuncHead := (method? line).or (function? line)

end CodeSurvey.Go
