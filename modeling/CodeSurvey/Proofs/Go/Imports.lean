-- The survey of a Go file that begins with imports. It reads a block up to a line with its
-- parenthesis and nothing else. With a comment behind the parenthesis the block stays open over
-- what follows, and no function or type is told of any more.
import CodeSurvey.Proofs.Go.Clause
import CodeSurvey.Proofs.Survey.Facts

namespace CodeSurvey.Go

open Text

/-! ## Lines that tell of imports alone -/

/-- What is told from a line on. -/
def surveyFrom (docs : Bool) (before : Nat) (above : List (List Char)) (inImports : Bool)
    (lines : List (List Char)) : FileFacts :=
  FileFacts.concat ((stops before above inImports lines).map (·.tell docs))

/-- What is told, with more imports in front. -/
def importing (imports : List Import) (f : FileFacts) : FileFacts :=
  { f with imports := imports ++ f.imports }

theorem importing_importing (imports more : List Import) (f : FileFacts) :
    importing imports (importing more f) = importing (imports ++ more) f := by
  simp [importing]

/-- The imports that a line tells of, and whether a block is open behind it, unless it declares
something. -/
def LineKind.quiet? (before : Nat) (inImports : Bool) : LineKind → Option (List Import × Bool)
  | .opensBlock => some ([], true)
  | .closesBlock => some ([], false)
  | .spec s => some ([importOf s.1 s.2 (lineNumber before)], inImports)
  | .other => some ([], inImports)
  | .type _ | .func _ => none

variable (docs : Bool) (before : Nat) (above : List (List Char)) (rest : List (List Char))

theorem surveyFrom_of_quiet {wasOpen isOpen : Bool} {line : List Char} {imports : List Import}
    (h : (lineKind wasOpen line).quiet? before wasOpen = some (imports, isOpen)) :
    surveyFrom docs before above wasOpen (line :: rest) =
      importing imports (surveyFrom docs (before + 1) (line :: above) isOpen rest) := by
  let p : Stop := ⟨before, above, wasOpen, line, rest⟩
  have hp : p.tell docs = { FileFacts.nothing with imports := imports } ∧ p.used = 0 ∧
      p.leavesOpen = isOpen := by
    have hkind : p.kind = lineKind wasOpen line := rfl
    unfold Stop.tell Stop.used Stop.leavesOpen
    rw [hkind]
    cases hline : lineKind wasOpen line with
    | type head | func head =>
      rw [hline] at h
      cases h
    | opensBlock | closesBlock | spec spec | other =>
      rw [hline] at h
      obtain ⟨rfl, rfl⟩ := Prod.mk.inj (Option.some.inj h)
      exact ⟨rfl, rfl, rfl⟩
  obtain ⟨htell, hused, hopen⟩ := hp
  have hstops : stops before above wasOpen (line :: rest) = _ := stops_cons p
  unfold surveyFrom
  rw [hstops, List.map_cons, htell, hused, hopen, FileFacts.concat_cons_imports]
  rfl

/-- In an open block every line tells of imports alone. -/
theorem quiet_of_open {line : List Char} (h : closesImports line = false) :
    ∃ imports, (lineKind true line).quiet? before true = some (imports, true) := by
  unfold lineKind
  rw [h]
  by_cases hopens : opensImports line = true
  · rw [if_pos hopens]
    exact ⟨_, rfl⟩
  · rw [if_neg hopens, if_pos rfl, if_neg Bool.false_ne_true]
    cases blockImport? line with
    | some spec => exact ⟨_, rfl⟩
    | none => exact ⟨_, rfl⟩

/-- Where a block stays open nothing but imports is told. -/
theorem surveyFrom_open {lines : List (List Char)} (h : ∀ line ∈ lines, closesImports line = false) :
    ∃ imports, surveyFrom docs before above true lines =
      { FileFacts.nothing with imports := imports } := by
  induction lines generalizing before above with
  | nil =>
    refine ⟨[], ?_⟩
    unfold surveyFrom
    rw [stops]
    rfl
  | cons line lines ih =>
    obtain ⟨hline, hlines⟩ := List.forall_mem_cons.1 h
    obtain ⟨imports, hquiet⟩ := quiet_of_open before hline
    obtain ⟨more, hmore⟩ := ih (before + 1) (line :: above) hlines
    rw [surveyFrom_of_quiet docs before above lines hquiet, hmore]
    exact ⟨imports ++ more, rfl⟩

theorem surveyFrom_between {lines : List (List Char)} (h : ∀ line ∈ lines, isBetween line = true) :
    surveyFrom docs before above false (lines ++ rest) =
      surveyFrom docs (before + lines.length) (lines.reverse ++ above) false rest := by
  induction lines generalizing before above with
  | nil => rfl
  | cons line lines ih =>
    obtain ⟨hline, hlines⟩ := List.forall_mem_cons.1 h
    have hquiet : (lineKind false line).quiet? before false = some ([], false) := by
      rw [lineKind_of_isBetween hline]
      rfl
    rw [List.cons_append, surveyFrom_of_quiet docs before above _ hquiet, ih _ _ hlines]
    simp [importing, Nat.add_assoc, Nat.add_comm 1]

/-- No import is told of where no line opens a block or imports a package. -/
theorem imports_surveyFrom {lines : List (List Char)}
    (h : ∀ line ∈ lines, opensImports line = false ∧ import? line = none) :
    (surveyFrom docs before above false lines).imports = [] := by
  have htells : ∀ p ∈ stops before above false lines, (p.tell docs).imports = [] := by
    generalize hopen : false = inImports
    fun_induction stops before above inImports lines with
    | case1 => intro p hp; cases hp
    | case2 before above inImports line rest p =>
      rename_i ih
      subst hopen
      obtain ⟨⟨hopens, himport⟩, hrest⟩ := List.forall_mem_cons.1 h
      have hkind : (∃ head, p.kind = .type head) ∨ (∃ head, p.kind = .func head) ∨ p.kind = .other := by
        change (∃ head, lineKind false line = _) ∨ (∃ head, lineKind false line = _) ∨
          lineKind false line = _
        unfold lineKind
        rw [hopens, himport]
        cases type? line with
        | some head => exact .inl ⟨head, rfl⟩
        | none =>
          cases func? line with
          | some head => exact .inr (.inl ⟨head, rfl⟩)
          | none => exact .inr (.inr rfl)
      have htell : (p.tell docs).imports = [] ∧ false = p.leavesOpen := by
        unfold Stop.tell Stop.leavesOpen
        rcases hkind with ⟨head, hkind⟩ | ⟨head, hkind⟩ | hkind
        all_goals
          rw [hkind]
          exact ⟨rfl, rfl⟩
      intro q hq
      rcases List.mem_cons.1 hq with rfl | hq
      · exact htell.1
      · exact ih (fun line hline => hrest line (List.mem_of_mem_drop hline)) htell.2 q hq
  refine List.flatMap_eq_nil_iff.2 fun f hf => ?_
  obtain ⟨p, hp, rfl⟩ := List.mem_map.1 hf
  exact htells p hp

/-! ## Comments above -/

theorem commentLines_append {above above' : List (List Char)}
    (h : commentLines above = commentLines above') (front : List (List Char)) :
    commentLines (front ++ above) = commentLines (front ++ above') := by
  induction front with
  | nil => exact h
  | cons line front ih =>
    rw [List.cons_append, List.cons_append, commentLines, commentLines, ih]

/-- A line of something else ends the comment below it. -/
theorem commentLines_of_front {front back : List Char} {c : Char} (hfront : allBlank front = true)
    (hblank : isBlank c = false) (hc : c ≠ '/') : commentLines ((front ++ c :: back) :: above) = [] := by
  have hhead : (trim (front ++ c :: back)).head? = some c := by
    rw [trim_blank_append hfront]
    exact head?_trim hblank rfl
  rw [commentLines, dropFront?_of_head?_ne]
  rw [hhead]
  exact fun heq => hc (Option.some.inj heq)

/-- Of the lines above nothing but the comment shows. -/
theorem surveyFrom_congr {above above' : List (List Char)}
    (h : commentLines above = commentLines above') (wasOpen : Bool) (lines : List (List Char)) :
    surveyFrom docs before above wasOpen lines = surveyFrom docs before above' wasOpen lines := by
  have htells : (stops before above wasOpen lines).map (·.tell docs) =
      (stops before above' wasOpen lines).map (·.tell docs) := by
    fun_induction stops before above wasOpen lines generalizing above' with
    | case1 => rw [stops]
    | case2 before above wasOpen line rest p =>
      rename_i ih
      let q : Stop := ⟨before, above', wasOpen, line, rest⟩
      have htell : p.tell docs = q.tell docs := by
        have hdoc : p.doc docs = q.doc docs := by
          unfold Stop.doc docAbove
          rw [show commentLines p.above = commentLines q.above from h]
        unfold Stop.tell
        rw [hdoc]
        rfl
      have hbelow := commentLines_append (commentLines_append h [line]) (rest.take p.used).reverse
      conv_rhs => rw [stops]
      rw [List.map_cons, List.map_cons, htell, ih hbelow]
      rfl
  unfold surveyFrom
  rw [htells]

/-! ## Clauses -/

/-- A spec is told as it is written. -/
theorem Spec.importOf_eq (s : Spec) (before : Nat) :
    importOf (s.newName.map (·.1)) s.path (lineNumber before) = s.importAt before := by
  unfold importOf importAt
  cases s.newName with
  | none => rfl
  | some n =>
    obtain ⟨name, gap⟩ := n
    dsimp only [Option.map_some]
    split
    · rename_i heq
      cases heq
    · rename_i heq
      rw [heq]
      rfl
    · rename_i heq
      rw [heq]
      rfl
    · rename_i name' hdot hscore heq
      obtain rfl := Option.some.inj heq
      have hdot : some name ≠ some ['.'] := fun h => hdot (Option.some.inj h)
      have hscore : some name ≠ some ['_'] := fun h => hscore (Option.some.inj h)
      simp [hdot, hscore, Import.plain]

theorem surveyFrom_inner (inner : List Inner) :
    surveyFrom docs before above true (inner.map Inner.write ++ rest) =
      importing (innerImports before inner) (surveyFrom docs (before + inner.length)
        ((inner.map Inner.write).reverse ++ above) true rest) := by
  induction inner generalizing before above with
  | nil => rfl
  | cons i inner ih =>
    have hquiet : (lineKind true i.write).quiet? before true =
        some ((i.spec.toList.filter (·.IsPlain)).map (·.importAt before), true) := by
      rw [i.lineKind_write]
      cases i.spec with
      | none => rfl
      | some s =>
        by_cases hplain : s.IsPlain
        · simp [hplain, LineKind.quiet?, s.importOf_eq]
        · simp [hplain, LineKind.quiet?]
    rw [List.map_cons, List.cons_append, surveyFrom_of_quiet docs before above _ hquiet, ih,
      importing_importing, innerImports]
    simp [Nat.add_assoc, Nat.add_comm 1]

/-- The lines of a clause tell of imports alone: where no block is open in front, of those that are
written there. -/
theorem surveyFrom_clause (wasOpen : Bool) (c : Clause) :
    ∃ imports, surveyFrom docs before above wasOpen (c.lines ++ rest) =
        importing imports (surveyFrom docs (before + c.lines.length) (c.lines.reverse ++ above)
          (c.leavesOpen wasOpen) rest) ∧
      (wasOpen = false → imports = c.imports before) := by
  have hline : ∀ line, closesImports line = false →
      (wasOpen = false → (lineKind false line).quiet? before false = some (c.imports before, false)) →
      ∃ imports, surveyFrom docs before above wasOpen (line :: rest) =
        importing imports (surveyFrom docs (before + 1) (line :: above) wasOpen rest) ∧
        (wasOpen = false → imports = c.imports before) := by
    intro line hcloses hquiet
    cases wasOpen with
    | false => exact ⟨_, surveyFrom_of_quiet docs before above rest (hquiet rfl), fun _ => rfl⟩
    | true =>
      obtain ⟨imports, hquiet⟩ := quiet_of_open before hcloses
      exact ⟨imports, surveyFrom_of_quiet docs before above rest hquiet, fun h => by cases h⟩
  cases c with
  | between line h =>
    refine hline line (closesImports_of_isBetween h) fun _ => ?_
    rw [lineKind_of_isBetween h]
    rfl
  | single s =>
    refine hline s.write s.closesImports_write fun _ => ?_
    rw [s.lineKind_write, Clause.imports, Single.imports]
    by_cases hread : s.gap ≠ [] ∧ s.spec.IsPlain
    · rw [if_pos hread, if_pos hread, ← s.spec.importOf_eq]
      rfl
    · rw [if_neg hread, if_neg hread]
      rfl
  | block b =>
    have hfirst : (lineKind wasOpen b.first).quiet? before wasOpen = some ([], true) := by
      rw [lineKind, b.opensImports_first]
      rfl
    have hlast : (lineKind true b.last).quiet? (before + 1 + b.inner.length) true =
        some ([], b.closing.comment.isSome) := by
      rw [b.lineKind_last]
      cases b.closing.comment with
      | none => rfl
      | some text => rfl
    refine ⟨innerImports (before + 1) b.inner, ?_, fun _ => rfl⟩
    have hlines : (Clause.block b).lines ++ rest =
        b.first :: (b.inner.map Inner.write ++ (b.last :: rest)) := by
      simp [Clause.lines]
    rw [hlines, surveyFrom_of_quiet docs before above _ hfirst, surveyFrom_inner,
      surveyFrom_of_quiet docs _ _ rest hlast]
    simp [importing, Clause.lines, Clause.leavesOpen, Nat.add_assoc, Nat.add_comm 1]

theorem no_import_of_isBetween {line : List Char} (h : isBetween line = true) :
    opensImports line = false ∧ import? line = none := by
  have hkind := lineKind_of_isBetween h
  unfold lineKind at hkind
  cases hopens : opensImports line with
  | true =>
    rw [hopens] at hkind
    cases hkind
  | false =>
    rw [hopens] at hkind
    cases himport : import? line with
    | some spec =>
      rw [himport] at hkind
      cases hkind
    | none => exact ⟨rfl, rfl⟩

theorem isBetween_blanked {c : Clause} : ∀ line ∈ c.blanked, isBetween line = true := by
  cases c with
  | between line h =>
    intro line' hline
    obtain rfl := List.mem_singleton.1 hline
    exact h
  | single s | block b =>
    intro line hline
    obtain ⟨-, -, rfl⟩ := List.mem_map.1 hline
    rfl

theorem length_blanked (c : Clause) : c.blanked.length = c.lines.length := by
  cases c with
  | between line h => rfl
  | single s | block b => exact List.length_map _

/-- Blanked out or not, an import ends the comment below it. -/
theorem commentLines_blanked (c : Clause) {above above' : List (List Char)}
    (h : commentLines above = commentLines above') :
    commentLines (c.lines.reverse ++ above) = commentLines (c.blanked.reverse ++ above') := by
  cases c with
  | between line hbetween => exact commentLines_append h [line]
  | single s =>
    have hlines : commentLines (s.write :: above) = [] :=
      commentLines_of_front _ s.blank_front (by decide : isBlank 'i' = false) (by decide)
    exact hlines
  | block b =>
    have hlines : commentLines ((Clause.block b).lines.reverse ++ above) = [] := by
      have hreverse : (Clause.block b).lines.reverse ++ above =
          b.last :: ((b.inner.map Inner.write).reverse ++ b.first :: above) := by
        simp [Clause.lines]
      rw [hreverse]
      exact commentLines_of_front _ b.blank_back (by decide : isBlank ')' = false) (by decide)
    have hblanked : commentLines ((Clause.block b).blanked.reverse ++ above') = [] := by
      have hreverse : (Clause.block b).blanked.reverse ++ above' =
          [] :: (((b.inner.map Inner.write).map fun _ => ([] : List Char)).reverse ++ [] :: above') := by
        simp [Clause.blanked, Clause.lines]
      rw [hreverse]
      rfl
    rw [hlines, hblanked]

/-- Blanked out or not, the clauses let the same comment through. -/
theorem commentLines_clauses (clauses : List Clause) {above above' : List (List Char)}
    (h : commentLines above = commentLines above') :
    commentLines ((clauses.flatMap Clause.lines).reverse ++ above) =
      commentLines ((clauses.flatMap Clause.blanked).reverse ++ above') := by
  induction clauses generalizing above above' with
  | nil => exact h
  | cons c clauses ih =>
    have hbelow := ih (commentLines_blanked c h)
    simpa only [List.flatMap_cons, List.reverse_append, List.append_assoc] using hbelow

/-- The clauses tell of imports alone, and of those that are written there when each block is closed
by its parenthesis alone. -/
theorem surveyFrom_clauses (wasOpen : Bool) (clauses : List Clause) :
    ∃ imports, surveyFrom docs before above wasOpen (clauses.flatMap Clause.lines ++ rest) =
        importing imports (surveyFrom docs (before + (clauses.flatMap Clause.lines).length)
          ((clauses.flatMap Clause.lines).reverse ++ above)
          (clauses.foldl Clause.leavesOpen wasOpen) rest) ∧
      (wasOpen = false → (∀ b, Clause.block b ∈ clauses → b.closing.comment = none) →
        imports = clauseImports before clauses) := by
  induction clauses generalizing before above wasOpen with
  | nil => exact ⟨[], rfl, fun _ _ => rfl⟩
  | cons c clauses ih =>
    obtain ⟨imports, hclause, himports⟩ := surveyFrom_clause docs before above
      (clauses.flatMap Clause.lines ++ rest) wasOpen c
    obtain ⟨more, hclauses, hmore⟩ := ih (before + c.lines.length) (c.lines.reverse ++ above)
      (c.leavesOpen wasOpen)
    refine ⟨imports ++ more, ?_, ?_⟩
    · rw [List.flatMap_cons, List.append_assoc, hclause, hclauses, importing_importing]
      simp [Nat.add_assoc]
    · intro hopen hclosed
      have hleaves : c.leavesOpen wasOpen = false := by
        cases c with
        | block b =>
          rw [Clause.leavesOpen, hclosed b List.mem_cons_self]
          rfl
        | between line h | single s => exact hopen
      rw [himports hopen, hmore hleaves fun b hb => hclosed b (List.mem_cons_of_mem c hb)]
      rfl

/-- A file that begins with imports. Unless a comment stands behind the parenthesis of the last
block, all but the imports is told as when the lines of the imports are blanked out; when none
stands behind the parenthesis of any block, the plain specs are imported, and nothing more unless
a line behind them reads like an import. With a comment behind the last parenthesis, no function,
type or export is told of before a line holds a parenthesis alone. -/
theorem survey_clauses {source blanked : String} {clauses : List Clause} {rest : List (List Char)}
    (hlines : lines source.toList = clauses.flatMap Clause.lines ++ rest)
    (hblanked : lines blanked.toList = clauses.flatMap Clause.blanked ++ rest) :
    (leaveOpen clauses = false → ∃ imports,
      survey docs source = { survey docs blanked with
        imports := imports ++ (survey docs blanked).imports } ∧
      ((∀ b, Clause.block b ∈ clauses → b.closing.comment = none) →
        imports = clauseImports 0 clauses)) ∧
    ((∀ line ∈ rest, opensImports line = false ∧ import? line = none) →
      (survey docs blanked).imports = []) ∧
    (leaveOpen clauses = true → (∀ line ∈ rest, closesImports line = false) →
      (survey docs source).facts = [] ∧ (survey docs source).exports = []) := by
  have hbetween : ∀ line ∈ clauses.flatMap Clause.blanked, isBetween line = true := by
    intro line hline
    obtain ⟨c, -, hline⟩ := List.mem_flatMap.1 hline
    exact isBetween_blanked line hline
  have hlength : (clauses.flatMap Clause.blanked).length = (clauses.flatMap Clause.lines).length := by
    simp only [List.length_flatMap, length_blanked]
  have hsource : survey docs source =
      surveyFrom docs 0 [] false (clauses.flatMap Clause.lines ++ rest) := by
    rw [survey_eq, stopsOf, hlines]
    rfl
  have hblank : survey docs blanked =
      surveyFrom docs 0 [] false (clauses.flatMap Clause.blanked ++ rest) := by
    rw [survey_eq, stopsOf, hblanked]
    rfl
  obtain ⟨imports, hclauses, himports⟩ := surveyFrom_clauses docs 0 [] rest false clauses
  refine ⟨fun hclosed => ⟨imports, ?_, himports rfl⟩, fun hrest => ?_, fun hopen hrest => ?_⟩
  · rw [hsource, hclauses, hblank, surveyFrom_between docs 0 [] rest hbetween, hlength,
      surveyFrom_congr docs _ (commentLines_clauses clauses rfl),
      show clauses.foldl Clause.leavesOpen false = false from hclosed]
    rfl
  · rw [hblank]
    refine imports_surveyFrom docs 0 [] fun line hline => ?_
    rcases List.mem_append.1 hline with hline | hline
    · exact no_import_of_isBetween (hbetween line hline)
    · exact hrest line hline
  · obtain ⟨more, hmore⟩ := surveyFrom_open docs (0 + (clauses.flatMap Clause.lines).length)
      ((clauses.flatMap Clause.lines).reverse ++ []) hrest
    rw [hsource, hclauses, show clauses.foldl Clause.leavesOpen false = true from hopen, hmore]
    exact ⟨rfl, rfl⟩

namespace Imported

/-- What stands behind the clauses. -/
def behind : String := "func F() \x7b\n\x7d\n"

/-- An import and a block of imports, with what ends the line of its parenthesis. -/
def source (closing : Tail) : String :=
  "package p\n\nimport \"fmt\" // text\n\nimport ( // more\n\t. \"math\"\n\t// a remark\n\n" ++
    "\t_ \"net/http/pprof\" // for its handlers\n\tu \"net/url\"\n)" ++ String.ofList closing.write ++
    "\n\n" ++ behind

def blanked : String := "package p\n\n\n\n\n\n\n\n\n\n\n\n" ++ behind

def nothing : Tail := ⟨[], none, allBlank_nil⟩

def remark (text : String) : Tail := ⟨[' '], some text.toList, allBlank_space⟩

def spec (newName : Option (List Char)) (path : String)
    (isName : ∀ n ∈ newName, n = ['.'] ∨ IsIdentifier n) (ne_nil : path.toList ≠ [])
    (plain : '\\' ∉ path.toList ∧ '"' ∉ path.toList) : Spec where
  newName := newName.map fun name => (name, [' '])
  quoting := .text
  path := path.toList
  isName := by
    intro n hn
    obtain ⟨name, hname, rfl⟩ := Option.map_eq_some_iff.1 hn
    exact isName name hname
  blank_gap := by
    intro n hn
    obtain ⟨name, -, rfl⟩ := Option.map_eq_some_iff.1 hn
    rfl
  quoted := by decide
  ne_nil := ne_nil
  plain := plain

def fmt : Spec := spec none "fmt" (by simp) (by decide) (by decide)

def math : Spec := spec (some ['.']) "math" (by simp) (by decide) (by decide)

def pprof : Spec :=
  spec (some ['_']) "net/http/pprof" (by rintro n ⟨⟩; exact .inr (by decide +kernel)) (by decide)
    (by decide)

def url : Spec :=
  spec (some ['u']) "net/url" (by rintro n ⟨⟩; exact .inr (by decide +kernel)) (by decide)
    (by decide)

theorem allBlank_tab : allBlank ['\t'] = true := rfl

def indented (spec : Option Spec) (tail : Tail) : Inner := ⟨['\t'], spec, tail, allBlank_tab⟩

def block (closing : Tail) : Block where
  front := []
  gap := [' ']
  opening := remark " more"
  inner := [indented (some math) nothing, indented none ⟨[], some " a remark".toList, allBlank_nil⟩,
    ⟨[], none, nothing, allBlank_nil⟩, indented (some pprof) (remark " for its handlers"),
    indented (some url) nothing]
  back := []
  closing := closing
  blank_front := allBlank_nil
  blank_gap := allBlank_space
  blank_back := allBlank_nil

def single : Single := ⟨[], [' '], fmt, remark " text", allBlank_nil, allBlank_space, by simp⟩

def clauses (closing : Tail) : List Clause :=
  [.between "package p".toList (by decide), .between [] isBetween_nil, .single single, .between [] isBetween_nil,
    .block (block closing), .between [] isBetween_nil]

def std : Tail := remark " std"

theorem lines_source : ∀ closing ∈ [nothing, std], lines (source closing).toList =
    (clauses closing).flatMap Clause.lines ++ lines behind.toList := by
  decide +kernel

theorem lines_blanked : ∀ closing ∈ [nothing, std], lines blanked.toList =
    (clauses closing).flatMap Clause.blanked ++ lines behind.toList := by
  decide +kernel

theorem nothing_mem : nothing ∈ [nothing, std] := List.mem_cons_self

theorem std_mem : std ∈ [nothing, std] := List.mem_cons_of_mem _ List.mem_cons_self

end Imported

/-- With the parenthesis alone on its line the imports are told, and the function behind them as if
they were not there; with a remark behind it the function is lost. -/
theorem survey_clauses_of_two_imports :
    (lines (Imported.source Imported.nothing).toList =
        (Imported.clauses Imported.nothing).flatMap Clause.lines ++ lines Imported.behind.toList ∧
      lines Imported.blanked.toList =
        (Imported.clauses Imported.nothing).flatMap Clause.blanked ++ lines Imported.behind.toList ∧
      survey true (Imported.source Imported.nothing) = { survey true Imported.blanked with
        imports := clauseImports 0 (Imported.clauses Imported.nothing) ++
          (survey true Imported.blanked).imports } ∧
      (survey true Imported.blanked).imports = []) ∧
    lines (Imported.source Imported.std).toList =
      (Imported.clauses Imported.std).flatMap Clause.lines ++ lines Imported.behind.toList ∧
    (survey true (Imported.source Imported.std)).facts = [] ∧
    (survey true (Imported.source Imported.std)).exports = [] := by
  have hnothing := Imported.lines_source _ Imported.nothing_mem
  have hstd := Imported.lines_source _ Imported.std_mem
  have hblanked := Imported.lines_blanked _ Imported.nothing_mem
  have hclosed : ∀ b, Clause.block b ∈ Imported.clauses Imported.nothing → b.closing.comment = none := by
    intro b hb
    simp only [Imported.clauses, List.mem_cons, Clause.block.injEq, reduceCtorEq, List.not_mem_nil,
      or_false, false_or] at hb
    rw [hb]
    rfl
  obtain ⟨hread, hbehind, -⟩ := survey_clauses true hnothing hblanked
  obtain ⟨imports, hsurvey, himports⟩ := hread rfl
  rw [himports hclosed] at hsurvey
  obtain ⟨-, -, hlost⟩ := survey_clauses true hstd (Imported.lines_blanked _ Imported.std_mem)
  exact ⟨⟨hnothing, hblanked, hsurvey, hbehind (by decide +kernel)⟩, hstd,
    hlost rfl (by decide +kernel)⟩

/-- The function and its export that are told when the imports are blanked out are lost when a
remark stands behind the parenthesis. -/
theorem function_lost_behind_remark :
    (Imported.block Imported.std).last = ") // std".toList ∧
    lines (Imported.source Imported.std).toList =
      (Imported.clauses Imported.std).flatMap Clause.lines ++ lines Imported.behind.toList ∧
    lines Imported.blanked.toList =
      (Imported.clauses Imported.std).flatMap Clause.blanked ++ lines Imported.behind.toList ∧
    (survey true Imported.blanked).facts.map (·.name) = ["F"] ∧
    (survey true Imported.blanked).exports.map (·.name) = ["F"] ∧
    (survey true (Imported.source Imported.std)).facts = [] ∧
    (survey true (Imported.source Imported.std)).exports = [] := by
  have hblanked : (survey true Imported.blanked).facts.map (·.name) = ["F"] ∧
      (survey true Imported.blanked).exports.map (·.name) = ["F"] := by
    decide +kernel
  have hsource : (survey true (Imported.source Imported.std)).facts = [] ∧
      (survey true (Imported.source Imported.std)).exports = [] := by
    decide +kernel
  exact ⟨rfl, Imported.lines_source _ Imported.std_mem, Imported.lines_blanked _ Imported.std_mem,
    hblanked.1, hblanked.2, hsource⟩

end CodeSurvey.Go
