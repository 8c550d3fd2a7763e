-- The syntax tree of a TypeScript text. Tokens that begin no statement are
-- passed over one by one.
import CodeSurvey.TypeScript.Grammar.Statements

namespace CodeSurvey.TypeScript

open Parse

/-! ## The grammar -/

/-- The rule of a goal, in which the goals are read by the given rules. -/
def ruleOf (r : Rules) : Goal → Parse Forest
  | .statement => Grammar.statement r
  | .expression => Grammar.expression r
  | .operation => Grammar.operation r
  | .unary => Grammar.unary r
  | .type => Grammar.type r
  | .pattern => Grammar.pattern r
  | .element => Grammar.element r

/-- The rules of the grammar, through at most `fuel` goals within each other. -/
def rules : Nat → Goal → Parse Forest
  | 0, _ => refuse
  | fuel + 1, goal => ruleOf (rules fuel) goal

/-! ## Whole texts -/

/-- A statement as the grammar has it, else one that lacks a mark, else one with tokens that
do not fit, else a token alone. -/
def statementOrStray (r : Rules) : Parse Forest :=
  first [r .statement, under .missing (r .statement), under .surplus (r .statement), strayToken]

/-- All statements up to the end of the text. -/
def statements (r : Rules) : Parse Forest := manyUntil (·.atEnd) (statementOrStray r)

/-- The number of characters of a first line that names the interpreter of the text. -/
def interpreterLine : List Char → Nat
  | '#' :: '!' :: r => (r.takeWhile (· ≠ '\n')).length + 2
  | _ => 0

/-- Goals nest no deeper than this: each rule reads a token before it comes back to its own
goal, and passes through the other goals at most once on the way. -/
def goalDepth (text : List Char) : Nat := 8 * (text.length + 1)

/-- The syntax tree of a text. Where `elements` is set, angle brackets in front of an operand
begin an element, and else a type. -/
def parse (elements : Bool) (text : List Char) : Tree :=
  let n := interpreterLine text
  let stop := (⟨0, 0⟩ : Mark).over (text.take n)
  let front : Forest :=
    if n = 0 then [] else [.node (.other "hash_bang_line") none true ⟨⟨0, 0⟩, stop⟩ []]
  let first := Cursor.settle elements .exact (text.drop n) stop (text.length - n)
  let parts :=
    match statements (rules (goalDepth text)) first with
    | some (found, last) => front ++ found ++ last.comments
    | none => front
  .node (.other "program") none true ⟨⟨0, 0⟩, (⟨0, 0⟩ : Mark).over text⟩ parts

end CodeSurvey.TypeScript
