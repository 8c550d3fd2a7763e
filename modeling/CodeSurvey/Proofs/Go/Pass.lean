-- The pass over the lines of a Go text as the list of its stops, the lines that it
-- looks at. What a stop tells, how many lines it uses up and whether it leaves a block
-- of imports open are said for each kind of line.
import CodeSurvey.Go.Scan
import CodeSurvey.Proofs.Text.Lines
import Mathlib.Data.List.Basic

namespace CodeSurvey.Go

open Text

/-! ## Kinds of lines -/

/-- What the pass takes a line for. -/
inductive LineKind where
  | opensBlock
  | closesBlock
  | spec (spec : Option (List Char) × List Char)
  | type (head : TypeHead)
  | func (head : FuncHead)
  | other
deriving DecidableEq, Repr

/-- In a block of imports a line is read for nothing but imports and the end of the block. -/
def lineKind (inImports : Bool) (line : List Char) : LineKind :=
  if opensImports line then .opensBlock
  else if inImports then
    if closesImports line then .closesBlock
    else match blockImport? line with
      | some spec => .spec spec
      | none => .other
  else match import? line with
  | some spec => .spec spec
  | none =>
    match type? line with
    | some head => .type head
    | none =>
      match func? line with
      | some head => .func head
      | none => .other

/-! ## Stops -/

/-- A line that the pass comes to, with the number of lines before it, these lines with the
nearest first, whether a block of imports is open there, and the lines after it. -/
structure Stop where
  before : Nat
  above : List (List Char)
  inImports : Bool
  line : List Char
  rest : List (List Char)

namespace Stop

def kind (p : Stop) : LineKind := lineKind p.inImports p.line

/-- The number of lines after that of the stop up to the one on which its braces balance. -/
def extra (p : Stop) : Nat := extraLines Braces.start (p.line :: p.rest)

/-- The comment above the stop, when comments are read. -/
def doc (docs : Bool) (p : Stop) : Option String := if docs then docAbove p.above else none

/-- What the stop tells, the lines after it that it uses up, and whether a block of imports is
open then. -/
def scan (docs : Bool) (p : Stop) : FileFacts × Nat × Bool :=
  scanLine docs p.before p.above p.inImports p.line p.rest

/-- What the stop tells of the file. -/
def tell (docs : Bool) (p : Stop) : FileFacts :=
  match p.kind with
  | .spec spec => tellImport spec (lineNumber p.before)
  | .type head => tellType head p.line p.before p.extra (p.doc docs)
  | .func head => tellFunc head (p.line :: p.rest.take p.extra) p.before (p.doc docs)
  | .opensBlock | .closesBlock | .other => FileFacts.nothing

/-- The number of lines after that of the stop which it uses up: those of the body of a function. -/
def used (p : Stop) : Nat :=
  match p.kind with
  | .func _ => p.extra
  | _ => 0

/-- A block of imports is open after the stop. -/
def leavesOpen (p : Stop) : Bool :=
  match p.kind with
  | .opensBlock => true
  | .closesBlock => false
  | _ => p.inImports

theorem scan_eq (docs : Bool) (p : Stop) : p.scan docs = (p.tell docs, p.used, p.leavesOpen) := by
  unfold scan scanLine tell used leavesOpen kind lineKind doc extra
  by_cases hopens : opensImports p.line = true
  · simp [hopens]
  by_cases hblock : p.inImports = true
  · by_cases hcloses : closesImports p.line = true
    · simp [hopens, hblock, hcloses]
    · cases blockImport? p.line <;> simp [hopens, hblock, hcloses]
  · cases import? p.line with
    | some spec => simp [hopens, hblock]
    | none =>
      cases type? p.line with
      | some head => simp [hopens, hblock]
      | none => cases func? p.line <;> simp [hopens, hblock]

/-- The braces of a declaration balance on one of the lines, or the lines end before. -/
theorem extraLines_le (b : Braces) (line : List Char) (rest : List (List Char)) :
    extraLines b (line :: rest) ≤ rest.length := by
  induction rest generalizing b line with
  | nil => simp [extraLines]
  | cons next rest ih =>
    rw [extraLines]
    have := ih (b.line line) next
    split
    · omega
    · simp only [List.isEmpty_cons, Bool.false_eq_true, if_false, List.length_cons]
      omega

theorem extra_le (p : Stop) : p.extra ≤ p.rest.length := extraLines_le _ _ _

end Stop

/-! ## The pass -/

/-- The stops of the pass over the lines below others. -/
def stops (before : Nat) (above : List (List Char)) (inImports : Bool) :
    List (List Char) → List Stop
  | [] => []
  | line :: rest =>
    let p : Stop := ⟨before, above, inImports, line, rest⟩
    p :: stops (before + 1 + p.used) ((rest.take p.used).reverse ++ line :: above) p.leavesOpen
      (rest.drop p.used)
termination_by lines => lines.length
decreasing_by simp only [List.length_drop, List.length_cons]; omega

/-- Behind a stop the pass goes on below the lines that it uses up. -/
theorem stops_cons (p : Stop) : stops p.before p.above p.inImports (p.line :: p.rest) =
    p :: stops (p.before + 1 + p.used) ((p.rest.take p.used).reverse ++ p.line :: p.above)
      p.leavesOpen (p.rest.drop p.used) := by
  rw [stops]

theorem scanFrom_eq (docs : Bool) (pieces : List FileFacts) (before : Nat)
    (above : List (List Char)) (inImports : Bool) (lines : List (List Char)) :
    scanFrom docs pieces before above inImports lines =
      ((stops before above inImports lines).map (·.tell docs)).reverse ++ pieces := by
  fun_induction stops before above inImports lines generalizing pieces with
  | case1 => simp [scanFrom]
  | case2 before above inImports line rest p =>
    rename_i ih
    have hscan : scanLine docs before above inImports line rest =
        (p.tell docs, p.used, p.leavesOpen) := p.scan_eq docs
    rw [scanFrom, hscan]
    dsimp only
    rw [ih]
    simp

/-- The stops of the pass over a whole text. -/
def stopsOf (source : String) : List Stop := stops 0 [] false (lines source.toList)

theorem survey_eq (docs : Bool) (source : String) :
    survey docs source = FileFacts.concat ((stopsOf source).map (·.tell docs)) := by
  unfold survey stopsOf
  rw [scanFrom_eq]
  simp

/-- A stop has its place among the lines. -/
theorem drop_of_mem_stops {p : Stop} {before : Nat} {above : List (List Char)} {inImports : Bool}
    {lines : List (List Char)} (h : p ∈ stops before above inImports lines) :
    ∃ k, p.before = before + k ∧ lines.drop k = p.line :: p.rest := by
  fun_induction stops before above inImports lines with
  | case1 => cases h
  | case2 before above inImports line rest first =>
    rename_i ih
    rcases List.mem_cons.1 h with rfl | h
    · exact ⟨0, rfl, rfl⟩
    · obtain ⟨k, hbefore, hdrop⟩ := ih h
      refine ⟨first.used + k + 1, by omega, ?_⟩
      rw [List.drop_succ_cons, ← List.drop_drop, hdrop]

theorem drop_of_mem_stopsOf {p : Stop} {source : String} (h : p ∈ stopsOf source) :
    (lines source.toList).drop p.before = p.line :: p.rest := by
  obtain ⟨k, hbefore, hdrop⟩ := drop_of_mem_stops h
  rw [hbefore, Nat.zero_add, hdrop]

/-- The pass comes to each line once. -/
theorem pairwise_stops (before : Nat) (above : List (List Char)) (inImports : Bool)
    (lines : List (List Char)) :
    (stops before above inImports lines).Pairwise (·.before < ·.before) := by
  fun_induction stops before above inImports lines with
  | case1 => exact .nil
  | case2 before above inImports line rest first =>
    rename_i ih
    refine .cons (fun p hp => ?_) ih
    obtain ⟨k, hbefore, -⟩ := drop_of_mem_stops hp
    change before < p.before
    omega

/-! ## Facts -/

/-- The fact that the stop tells of. -/
def Stop.fact? (docs : Bool) (p : Stop) : Option Fact := (p.tell docs).facts.head?

/-- A stop tells of one fact at most. -/
theorem Stop.facts_tell (docs : Bool) (p : Stop) :
    (p.tell docs).facts = (p.fact? docs).toList := by
  unfold fact? tell
  split <;> rfl

/-- The fact of a stop has the lines of its declaration. -/
theorem Stop.lines_fact {docs : Bool} {p : Stop} {f : Fact} (h : p.fact? docs = some f) :
    f.startLine = lineNumber p.before ∧ f.endLine = lineNumber (p.before + p.extra) := by
  have hextra := p.extra_le
  unfold fact? tell at h
  split at h
  · cases h
  · obtain rfl := Option.some.inj h
    exact ⟨rfl, rfl⟩
  · obtain rfl := Option.some.inj h
    refine ⟨rfl, ?_⟩
    simp [Fact.bare, Nat.min_eq_left hextra]
  all_goals cases h

theorem facts_survey (docs : Bool) (source : String) :
    (survey docs source).facts = (stopsOf source).filterMap (·.fact? docs) := by
  rw [survey_eq]
  unfold FileFacts.concat
  dsimp only
  rw [List.flatMap_map, List.filterMap_eq_flatMap_toList]
  simp only [Stop.facts_tell]

/-- What is told from a stop on is the fact of that stop, and what is told behind the lines that it
uses up. -/
theorem filterMap_stops (docs : Bool) (p : Stop) :
    (stops p.before p.above p.inImports (p.line :: p.rest)).filterMap (·.fact? docs) =
      (p.fact? docs).toList ++ (stops (p.before + 1 + p.used)
        ((p.rest.take p.used).reverse ++ p.line :: p.above) p.leavesOpen
        (p.rest.drop p.used)).filterMap (·.fact? docs) := by
  rw [stops_cons]
  cases hfact : p.fact? docs with
  | none => rw [List.filterMap_cons_none hfact]; rfl
  | some f => rw [List.filterMap_cons_some hfact]; rfl

end CodeSurvey.Go
