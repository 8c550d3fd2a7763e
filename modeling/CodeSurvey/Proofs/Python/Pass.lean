-- The pass over the lines of a Python text as the list of its stops, the lines
-- that it looks at. What a stop tells, how many lines it uses up and which blocks
-- it leaves open are said for each kind of line.
import CodeSurvey.Proofs.Python.Header
import CodeSurvey.Python.Scan
import Mathlib.Data.List.Basic
import Mathlib.Data.List.Nodup
import Mathlib.Data.List.TakeWhile

namespace CodeSurvey.Python

open Text

/-! ## Kinds of lines -/

/-- What the pass takes a line for. -/
inductive LineKind where
  | decorator
  | fromModule (source names : List Char)
  | modules (list : List Char)
  | declaration (declared : Declared)
  | other
deriving DecidableEq, Repr

def lineKind (line : List Char) : LineKind :=
  if isDecorator line then .decorator
  else match fromImport? line with
  | some (source, names) => .fromModule source names
  | none =>
    match import? line with
    | some list => .modules list
    | none =>
      match declared? line with
      | some declared => .declaration declared
      | none => .other

/-- A line that declares something is not blank. -/
theorem not_allBlank_of_declares {line : List Char} {declared : Declared}
    (h : lineKind line = .declaration declared) : allBlank line = false := by
  by_contra hblank
  have htrim : trimStart line = [] :=
    List.dropWhile_eq_nil_iff.2 (List.all_eq_true.1 (Bool.not_eq_false _ ▸ hblank))
  have hfunction : function? line = none := by
    unfold function?
    rw [htrim]
    rfl
  have hclass : class? line = none := by
    unfold class?
    rw [htrim]
    rfl
  have hnone : declared? line = none := by rw [declared?, hfunction, hclass, Option.or_none]
  unfold lineKind at h
  grind

/-! ## Blocks that are over -/

/-- A header with the indent, after `before` lines, takes the block for closed. -/
def Scope.isOver (indent before : Nat) (s : Scope) : Bool :=
  decide (indent ≤ s.indent) || decide (s.last < before)

theorem stillOpen_eq (indent before : Nat) (scopes : List Scope) :
    stillOpen indent before scopes = scopes.dropWhile (·.isOver indent before) := rfl

theorem Scope.isOver_iff {indent before : Nat} {s : Scope} :
    s.isOver indent before = true ↔ indent ≤ s.indent ∨ s.last < before := by
  rw [isOver, Bool.or_eq_true, decide_eq_true_eq, decide_eq_true_eq]

/-! ## Stops -/

/-- A line that the pass comes to, with the number of lines before it, the blocks that are
open there, and the lines after it. -/
structure Stop where
  before : Nat
  scopes : List Scope
  line : List Char
  rest : List (List Char)

namespace Stop

def kind (p : Stop) : LineKind := lineKind p.line

def indent (p : Stop) : Nat := indentOf p.line

/-- The header that begins at the stop, and the number of its lines. -/
def header? (p : Stop) : Option (Header × Nat) := readHeader (p.line :: p.rest)

/-- The blocks that are open around a declaration at the stop. -/
def outer (p : Stop) : List Scope := stillOpen p.indent p.before p.scopes

/-- The declaration at the stop, when its header has `size` lines. -/
def declaration (docs : Bool) (p : Stop) (declared : Declared) (header : Header) (size : Nat) :
    Declaration :=
  let block := blockOf p.indent (p.rest.drop (size - 1))
  { declared := declared
    header := header
    before := p.before
    last := p.before + (size - 1) + block.length
    doc := if docs then docOf block else none
    topLevel := p.outer.isEmpty && p.indent == 0
    enclosing := enclosingClass p.outer }

/-- What the stop tells, the lines after it that it uses up, and the blocks open then. -/
def scan (docs : Bool) (p : Stop) : FileFacts × Nat × List Scope :=
  scanLine docs p.before p.scopes p.line p.rest

variable {docs : Bool} {p : Stop}

theorem scan_decorator (h : p.kind = .decorator) : p.scan docs =
    ({ FileFacts.nothing with features := { Features.none with decorators := true } }, 0,
      p.scopes) := by
  simp only [kind, lineKind] at h
  unfold scan scanLine
  grind

theorem scan_fromModule {source names : List Char} (h : p.kind = .fromModule source names) :
    p.scan docs =
      ({ FileFacts.nothing with
          imports := [{ Import.plain (String.ofList source) (lineNumber p.before) with
            named := namesOf (namesOver names p.rest).1 }] },
        (namesOver names p.rest).2, p.scopes) := by
  simp only [kind, lineKind] at h
  unfold scan scanLine
  grind

theorem scan_modules {list : List Char} (h : p.kind = .modules list) : p.scan docs =
    ({ FileFacts.nothing with imports := modulesOf list (lineNumber p.before) }, 0,
      p.scopes) := by
  simp only [kind, lineKind] at h
  unfold scan scanLine
  grind

theorem scan_other (h : p.kind = .other) : p.scan docs = (FileFacts.nothing, 0, p.scopes) := by
  simp only [kind, lineKind] at h
  unfold scan scanLine
  grind

theorem scan_unfinished {declared : Declared} (h : p.kind = .declaration declared)
    (hheader : p.header? = none) : p.scan docs = (FileFacts.nothing, 0, p.outer) := by
  simp only [kind, lineKind] at h
  unfold header? at hheader
  unfold scan scanLine outer indent
  grind

theorem scan_declaration {declared : Declared} (h : p.kind = .declaration declared)
    {header : Header} {size : Nat} (hheader : p.header? = some (header, size)) :
    p.scan docs =
      ((p.declaration docs declared header size).tell, size - 1,
        ⟨p.indent, (p.declaration docs declared header size).last,
          (p.declaration docs declared header size).owner⟩ :: p.outer) := by
  simp only [kind, lineKind] at h
  unfold header? at hheader
  unfold scan scanLine declaration outer indent
  grind

/-- Whether comment strings are read is seen in what is told only. -/
theorem scan_snd (docs : Bool) (p : Stop) : (p.scan docs).2 = (p.scan false).2 := by
  cases h : p.kind with
  | decorator => rw [scan_decorator h, scan_decorator h]
  | fromModule source names => rw [scan_fromModule h, scan_fromModule h]
  | modules list => rw [scan_modules h, scan_modules h]
  | other => rw [scan_other h, scan_other h]
  | declaration declared =>
    cases hheader : p.header? with
    | none => rw [scan_unfinished h hheader, scan_unfinished h hheader]
    | some found =>
      obtain ⟨header, size⟩ := found
      rw [scan_declaration h hheader, scan_declaration h hheader]
      rfl

/-- What the stop tells of the file. -/
def tell (docs : Bool) (p : Stop) : FileFacts := (p.scan docs).1

/-- The number of lines after that of the stop which it uses up. -/
def used (p : Stop) : Nat := (p.scan false).2.1

/-- The blocks that are open after the stop. -/
def inner (p : Stop) : List Scope := (p.scan false).2.2

theorem scan_eq (docs : Bool) (p : Stop) : p.scan docs = (p.tell docs, p.used, p.inner) := by
  rw [used, inner, ← scan_snd docs p]
  rfl

/-- Only a declaration opens and closes blocks. -/
theorem inner_eq_scopes (h : ∀ declared, p.kind ≠ .declaration declared) : p.inner = p.scopes := by
  cases hkind : p.kind with
  | decorator => rw [inner, scan_decorator hkind]
  | fromModule source names => rw [inner, scan_fromModule hkind]
  | modules list => rw [inner, scan_modules hkind]
  | other => rw [inner, scan_other hkind]
  | declaration declared => exact absurd hkind (h declared)

/-- The declaration that the stop tells of. -/
def found? (docs : Bool) (p : Stop) : Option Declaration :=
  match p.kind with
  | .declaration declared =>
    p.header?.map fun (header, size) => p.declaration docs declared header size
  | _ => none

end Stop

/-- All that is told of a declaration. -/
def Declaration.whole (d : Declaration) : Fact :=
  match d.declared with
  | .function name isAsync =>
    { d.fact name (if d.enclosing.isSome then .method else .function) with
      parameters := some (parametersOf d.enclosing.isSome (d.header.params.getD []))
      returnType := returnType d.header.tail
      isAsync := isAsync }
  | .class_ name => d.fact name .class_

theorem Declaration.facts_tell (d : Declaration) : d.tell.facts = [d.whole] := by
  unfold Declaration.tell Declaration.whole
  cases d.declared <;> rfl

def Declared.name : Declared → List Char
  | .function name _ => name
  | .class_ name => name

/-- The kind of the fact of a declaration, in a class or not. -/
def Declared.kind (inClass : Bool) : Declared → FactKind
  | .function _ _ => if inClass then .method else .function
  | .class_ _ => .class_

namespace Declaration

theorem kind_whole (d : Declaration) : d.whole.kind = d.declared.kind d.enclosing.isSome := by
  unfold whole
  cases d.declared <;> rfl

/-- A function is a method when a class encloses it. -/
theorem isMethod_whole {d : Declaration} {name : List Char} {isAsync : Bool}
    (h : d.declared = .function name isAsync) :
    decide (d.whole.kind = .method) = d.enclosing.isSome := by
  rw [kind_whole, h, Declared.kind]
  cases d.enclosing.isSome <;> rfl

theorem name_whole (d : Declaration) :
    d.whole.name = String.ofList (d.qualify d.declared.name) := by
  unfold whole
  cases d.declared <;> rfl

theorem parameters_whole {d : Declaration} {name : List Char} {isAsync : Bool}
    (h : d.declared = .function name isAsync) : d.whole.parameters =
      some (parametersOf (d.whole.kind = .method) (d.header.params.getD [])) := by
  rw [isMethod_whole h]
  unfold whole
  rw [h]

theorem startLine_whole (d : Declaration) : d.whole.startLine = lineNumber d.before := by
  unfold whole
  cases d.declared <;> rfl

theorem endLine_whole (d : Declaration) : d.whole.endLine = lineNumber d.last := by
  unfold whole
  cases d.declared <;> rfl

end Declaration

theorem Stop.facts_tell (docs : Bool) (p : Stop) :
    (p.tell docs).facts = ((p.found? docs).map Declaration.whole).toList := by
  unfold tell found?
  cases h : p.kind with
  | decorator => rw [scan_decorator h]; rfl
  | fromModule source names => rw [scan_fromModule h]; rfl
  | modules list => rw [scan_modules h]; rfl
  | other => rw [scan_other h]; rfl
  | declaration declared =>
    cases hheader : p.header? with
    | none => rw [scan_unfinished h hheader]; rfl
    | some found =>
      obtain ⟨header, size⟩ := found
      rw [scan_declaration h hheader]
      exact Declaration.facts_tell _

/-! ## What a stop uses up -/

/-- The parenthesis in front of the names is closed, among them or outside of comments on one
of the lines. -/
def IsClosed (names : List Char) (rest : List (List Char)) : Prop :=
  startsWith ['('] names = true → ')' ∈ names ∨ ∃ line ∈ rest, ')' ∈ Text.before ['#'] line

instance (names : List Char) (rest : List (List Char)) : Decidable (IsClosed names rest) :=
  inferInstanceAs (Decidable (_ → _))

/-- What begins at the stop also ends in the lines: the header of a declaration, and the list of
an import in parentheses. -/
structure Stop.Ends (p : Stop) : Prop where
  header : ∀ declared, p.kind = .declaration declared → p.header?.isSome = true
  list : ∀ source names, p.kind = .fromModule source names → IsClosed names p.rest

theorem Stop.ends_iff {p : Stop} : p.Ends ↔
    match p.kind with
    | .declaration _ => p.header?.isSome = true
    | .fromModule _ names => IsClosed names p.rest
    | _ => True := by
  constructor
  · rintro ⟨hheader, hlist⟩
    split
    · exact hheader _ ‹_›
    · exact hlist _ _ ‹_›
    · trivial
  · intro h
    exact ⟨fun _ hkind => by simpa only [hkind] using h,
      fun _ _ hkind => by simpa only [hkind] using h⟩

instance (p : Stop) : Decidable p.Ends :=
  match h : p.kind with
  | .declaration _ => decidable_of_iff' (p.header?.isSome = true) (by rw [Stop.ends_iff, h])
  | .fromModule _ names => decidable_of_iff' (IsClosed names p.rest) (by rw [Stop.ends_iff, h])
  | .decorator | .modules _ | .other => .isTrue (by rw [Stop.ends_iff, h]; trivial)

theorem namesOver_append {names : List Char} {rest : List (List Char)}
    (h : IsClosed names rest) (later : List (List Char)) :
    namesOver names (rest ++ later) = namesOver names rest := by
  unfold namesOver
  split
  · rename_i hopen
    obtain ⟨hstart, hnames⟩ := Bool.and_eq_true_iff.1 hopen
    obtain ⟨line, hline, hclosed⟩ := (h hstart).resolve_left (by simpa using hnames)
    have hshort : (rest.takeWhile fun l => !(Text.before ['#'] l).contains ')').length <
        rest.length := by
      refine Nat.lt_of_le_of_ne (List.takeWhile_prefix _).length_le fun heq => ?_
      have hall := List.mem_takeWhile_imp ((List.takeWhile_prefix _).eq_of_length heq ▸ hline)
      simp [hclosed] at hall
    dsimp only
    rw [List.takeWhile_append, if_neg (Nat.ne_of_lt hshort), List.take_append_of_le_length hshort]
  · rfl

theorem namesOver_le (names : List Char) (rest : List (List Char)) :
    (namesOver names rest).2 ≤ rest.length := by
  unfold namesOver
  split
  · exact List.length_take_le' _ _
  · exact Nat.zero_le _

/-- A stop uses up lines of the text only. -/
theorem Stop.used_le (p : Stop) : p.used ≤ p.rest.length := by
  cases h : p.kind with
  | decorator => simp only [used, scan_decorator h, Nat.zero_le]
  | fromModule source names => simpa only [used, scan_fromModule h] using namesOver_le names p.rest
  | modules list => simp only [used, scan_modules h, Nat.zero_le]
  | other => simp only [used, scan_other h, Nat.zero_le]
  | declaration declared =>
    cases hheader : p.header? with
    | none => simp only [used, scan_unfinished h hheader, Nat.zero_le]
    | some found =>
      obtain ⟨-, hle, -⟩ := readOn_size hheader
      simp only [used, scan_declaration h hheader]
      exact Nat.sub_le_of_le_add hle

/-! ## The pass -/

/-- The stops of the pass over the lines after `before` others. -/
def stops (before : Nat) (scopes : List Scope) : List (List Char) → List Stop
  | [] => []
  | line :: rest =>
    let p : Stop := ⟨before, scopes, line, rest⟩
    p :: stops (before + 1 + p.used) p.inner (rest.drop p.used)
termination_by lines => lines.length
decreasing_by simp only [List.length_drop, List.length_cons]; omega

theorem tells_cons (docs : Bool) (p : Stop) :
    (stops p.before p.scopes (p.line :: p.rest)).map (·.tell docs) = p.tell docs ::
      (stops (p.before + 1 + p.used) p.inner (p.rest.drop p.used)).map (·.tell docs) := by
  rw [stops, List.map_cons]

theorem scanFrom_eq (docs : Bool) (pieces : List FileFacts) (before : Nat) (scopes : List Scope)
    (lines : List (List Char)) : scanFrom docs pieces before scopes lines =
      ((stops before scopes lines).map (·.tell docs)).reverse ++ pieces := by
  fun_induction stops before scopes lines generalizing pieces with
  | case1 => rw [scanFrom]; rfl
  | case2 before scopes line rest p ih =>
    have hscan : scanLine docs before scopes line rest = (p.tell docs, p.used, p.inner) :=
      p.scan_eq docs
    rw [scanFrom, hscan]
    dsimp only
    rw [ih, List.map_cons, List.reverse_cons, List.append_assoc]
    rfl

/-- The stops of the pass over a whole text. -/
def stopsOf (source : String) : List Stop := stops 0 [] (lines source.toList)

theorem survey_eq (docs : Bool) (source : String) :
    survey docs source = FileFacts.concat ((stopsOf source).map (·.tell docs)) := by
  rw [survey, scanFrom_eq, List.append_nil, List.reverse_reverse]
  rfl

/-- A stop has its place among the lines. -/
theorem drop_of_mem_stops {p : Stop} {before : Nat} {scopes : List Scope}
    {lines : List (List Char)} (h : p ∈ stops before scopes lines) :
    ∃ k, p.before = before + k ∧ lines.drop k = p.line :: p.rest := by
  fun_induction stops before scopes lines with
  | case1 => cases h
  | case2 before scopes line rest first =>
    rename_i ih
    rcases List.mem_cons.1 h with rfl | h
    · exact ⟨0, rfl, rfl⟩
    · obtain ⟨k, hbefore, hdrop⟩ := ih h
      refine ⟨first.used + k + 1, by omega, ?_⟩
      rw [List.drop_succ_cons, ← List.drop_drop, hdrop]

theorem drop_of_mem_stopsOf {p : Stop} {source : String} (h : p ∈ stopsOf source) :
    (lines source.toList).drop p.before = p.line :: p.rest := by
  obtain ⟨k, hbefore, hdrop⟩ := drop_of_mem_stops h
  rw [hbefore, Nat.zero_add, hdrop]

/-- The pass comes to each line once. -/
theorem pairwise_stops (before : Nat) (scopes : List Scope) (lines : List (List Char)) :
    (stops before scopes lines).Pairwise (·.before < ·.before) := by
  fun_induction stops before scopes lines with
  | case1 => exact .nil
  | case2 before scopes line rest first =>
    rename_i ih
    refine .cons (fun p hp => ?_) ih
    obtain ⟨k, hbefore, -⟩ := drop_of_mem_stops hp
    change before < p.before
    omega

/-- The declarations of a text, in order. -/
def declarations (docs : Bool) (source : String) : List Declaration :=
  (stopsOf source).filterMap (·.found? docs)

theorem Stop.before_of_found {docs : Bool} {p : Stop} {d : Declaration}
    (h : p.found? docs = some d) : d.before = p.before := by
  unfold found? at h
  split at h
  · obtain ⟨_, -, rfl⟩ := Option.map_eq_some_iff.1 h
    rfl
  · cases h

theorem pairwise_declarations (docs : Bool) (source : String) :
    (declarations docs source).Pairwise (·.before < ·.before) :=
  (pairwise_stops 0 [] _).filterMap _ fun _ _ hlt _ hd _ hd' => by
    rwa [Stop.before_of_found hd, Stop.before_of_found hd']

/-- The declaration that a stop tells of stands between those of the lines above and below. -/
theorem declarations_eq_append {docs : Bool} {source : String} {p : Stop} {d : Declaration}
    (hp : p ∈ stopsOf source) (h : p.found? docs = some d) :
    ∃ earlier later, declarations docs source = earlier ++ d :: later ∧
      (∀ e ∈ earlier, e.before < p.before) ∧ ∀ e ∈ later, p.before < e.before := by
  have hmem : d ∈ declarations docs source := List.mem_filterMap.2 ⟨p, hp, h⟩
  obtain ⟨earlier, later, hsplit⟩ := List.append_of_mem hmem
  have hordered := pairwise_declarations docs source
  rw [hsplit, List.pairwise_append, List.pairwise_cons] at hordered
  obtain ⟨-, ⟨hlater, -⟩, hearlier⟩ := hordered
  rw [Stop.before_of_found h] at hlater
  refine ⟨earlier, later, hsplit, fun e he => ?_, hlater⟩
  exact Stop.before_of_found h ▸ hearlier e he d List.mem_cons_self

/-- Where a stop tells of no declaration, none of the text begins. -/
theorem before_ne_of_found?_eq_none {docs : Bool} {source : String} {p : Stop}
    (hp : p ∈ stopsOf source) (h : p.found? docs = none) :
    ∀ d ∈ declarations docs source, d.before ≠ p.before := by
  intro d hd heq
  obtain ⟨q, hq, hfound⟩ := List.mem_filterMap.1 hd
  have hdistinct : ((stopsOf source).map (·.before)).Nodup :=
    List.pairwise_map.2 ((pairwise_stops 0 [] _).imp Nat.ne_of_lt)
  have hsame : q = p := List.inj_on_of_nodup_map hdistinct hq hp
    ((Stop.before_of_found hfound).symm.trans heq)
  rw [hsame, h] at hfound
  cases hfound

theorem facts_survey (docs : Bool) (source : String) :
    (survey docs source).facts = (declarations docs source).map Declaration.whole := by
  rw [survey_eq, declarations]
  change ((stopsOf source).map (·.tell docs)).flatMap (·.facts) = _
  rw [List.flatMap_map, List.map_filterMap, List.filterMap_eq_flatMap_toList]
  simp only [Stop.facts_tell]

end CodeSurvey.Python
