-- The survey of two texts one after the other: when nothing that begins in the
-- first runs over its end, and the second begins in the first column, it tells what
-- the survey of each of them tells.
import CodeSurvey.Proofs.Python.Block
import CodeSurvey.Proofs.Python.Header
import CodeSurvey.Proofs.Python.Pass
import CodeSurvey.Proofs.Survey.Facts
import CodeSurvey.Proofs.Text.Lines
import Mathlib.Data.List.Basic
import Mathlib.Data.List.TakeWhile

namespace CodeSurvey

/-! ## Facts further down -/

/-- The fact when `n` lines more stand before it. -/
def Fact.movedDown (n : UInt32) (f : Fact) : Fact :=
  { f with startLine := f.startLine + n, endLine := f.endLine + n }

def Import.movedDown (n : UInt32) (i : Import) : Import := { i with line := i.line + n }

def Export.movedDown (n : UInt32) (e : Export) : Export := { e with line := e.line + n }

/-- What a text tells when `n` lines more stand before it. -/
def FileFacts.movedDown (n : UInt32) (f : FileFacts) : FileFacts where
  facts := f.facts.map (·.movedDown n)
  imports := f.imports.map (·.movedDown n)
  exports := f.exports.map (·.movedDown n)
  features := f.features

theorem lineNumber_add (before n : Nat) :
    lineNumber (before + n) = lineNumber before + UInt32.ofNat n := by
  rw [lineNumber, lineNumber, Nat.add_right_comm, UInt32.ofNat_add]

theorem FileFacts.concat_movedDown (n : UInt32) (parts : List FileFacts) :
    FileFacts.concat (parts.map (·.movedDown n)) = (FileFacts.concat parts).movedDown n := by
  simp only [FileFacts.concat, FileFacts.movedDown, List.flatMap_map, List.map_flatMap,
    List.foldl_map]

namespace Python

open Text

/-! ## The same lines further down -/

/-- The open block when `n` lines more stand before it. -/
def Scope.movedDown (n : Nat) (s : Scope) : Scope := { s with last := s.last + n }

/-- The second blocks are the first further down, around them perhaps some that end in
the `n` lines above. -/
def Under (n : Nat) (scopes scopes' : List Scope) : Prop :=
  ∃ above, scopes' = scopes.map (·.movedDown n) ++ above ∧ ∀ s ∈ above, s.last < n

/-- A header closes the blocks that end above, unless they stand around one that stays open. -/
theorem Under.stillOpen {n : Nat} {scopes scopes' : List Scope} (h : Under n scopes scopes')
    (indent before : Nat) :
    ∃ above, stillOpen indent (before + n) scopes' =
        (stillOpen indent before scopes).map (·.movedDown n) ++ above ∧
      (∀ s ∈ above, s.last < n) ∧ (stillOpen indent before scopes = [] → above = []) := by
  obtain ⟨above, rfl, habove⟩ := h
  have htest : (fun s : Scope => (s.movedDown n).isOver indent (before + n)) =
      fun s => s.isOver indent before := by
    funext s
    rw [Bool.eq_iff_iff, Scope.isOver_iff, Scope.isOver_iff]
    exact or_congr Iff.rfl Nat.add_lt_add_iff_right
  have hclosed : above.dropWhile (·.isOver indent (before + n)) = [] :=
    List.dropWhile_eq_nil_iff.2 fun s hs =>
      Scope.isOver_iff.2 (.inr (Nat.lt_of_lt_of_le (habove s hs) (Nat.le_add_left n before)))
  rw [stillOpen_eq, stillOpen_eq, List.dropWhile_append, List.dropWhile_map, Function.comp_def,
    htest, hclosed]
  cases scopes.dropWhile (·.isOver indent before) with
  | nil => exact ⟨[], rfl, by simp, fun _ => rfl⟩
  | cons s rest => exact ⟨above, rfl, habove, fun h => absurd h (List.cons_ne_nil _ _)⟩

def Declaration.movedDown (n : Nat) (d : Declaration) : Declaration :=
  { d with before := d.before + n, last := d.last + n }

theorem Declaration.tell_movedDown (n : Nat) (d : Declaration) :
    (d.movedDown n).tell = d.tell.movedDown (UInt32.ofNat n) := by
  have hexported : ∀ name, (d.movedDown n).exported name =
      (d.exported name).map (·.movedDown (UInt32.ofNat n)) := by
    intro name
    change (if d.topLevel && d.exports name then [Export.mk _ _ _ _] else []) = List.map _
      (if d.topLevel && d.exports name then [Export.mk _ _ _ _] else [])
    split
    · rw [List.map_singleton, Export.movedDown, ← lineNumber_add]
      rfl
    · rfl
  have hfact : ∀ name kind, (d.movedDown n).fact name kind =
      (d.fact name kind).movedDown (UInt32.ofNat n) := by
    intro name kind
    rw [Fact.movedDown]
    simp only [Declaration.fact, Fact.bare, ← lineNumber_add]
    rfl
  obtain ⟨declared, header, before, last, doc, topLevel, enclosing⟩ := d
  cases declared with
  | function name isAsync =>
    simp only [Declaration.tell, hexported, hfact]
    rfl
  | class_ name =>
    simp only [Declaration.tell, hexported, hfact]
    rfl

theorem modulesOf_add (list : List Char) (line n : UInt32) :
    modulesOf list (line + n) = (modulesOf list line).map (·.movedDown n) := by
  unfold modulesOf
  rw [List.map_filterMap]
  refine List.filterMap_congr fun item _ => ?_
  split <;> rfl

namespace Stop

variable {p q : Stop}

theorem declaration_under (docs : Bool) {n : Nat} (hbefore : q.before = p.before + n)
    (hline : q.line = p.line) (hrest : q.rest = p.rest) (hscopes : Under n p.scopes q.scopes)
    (declared : Declared) (header : Header) (size : Nat) :
    q.declaration docs declared header size =
      (p.declaration docs declared header size).movedDown n := by
  obtain ⟨above, houter, -, hnil⟩ := hscopes.stillOpen p.indent p.before
  have hq : q.outer = p.outer.map (·.movedDown n) ++ above := by
    rw [outer, outer, ← houter, hbefore, indent, hline]
    rfl
  have htop : q.outer.isEmpty = p.outer.isEmpty ∧
      enclosingClass q.outer = enclosingClass p.outer := by
    rw [hq]
    cases hp : p.outer with
    | nil => rw [hnil hp]; exact ⟨rfl, rfl⟩
    | cons s rest => exact ⟨rfl, by obtain ⟨indent, last, owner⟩ := s; cases owner <;> rfl⟩
  unfold declaration indent
  rw [hline, hrest, hbefore, htop.1, htop.2]
  simp only [Declaration.movedDown, Nat.add_right_comm _ n]

/-- What is scanned at a stop further down. -/
theorem scan_under (docs : Bool) {n : Nat} (hbefore : q.before = p.before + n)
    (hline : q.line = p.line) (hrest : q.rest = p.rest) (hscopes : Under n p.scopes q.scopes) :
    q.tell docs = (p.tell docs).movedDown (UInt32.ofNat n) ∧ q.used = p.used ∧
      Under n p.inner q.inner := by
  have hkind : q.kind = p.kind := congrArg lineKind hline
  cases h : p.kind with
  | decorator =>
    simp only [tell, used, inner, scan_decorator h, scan_decorator (hkind.trans h)]
    exact ⟨rfl, trivial, hscopes⟩
  | fromModule source names =>
    simp only [tell, used, inner, scan_fromModule h, scan_fromModule (hkind.trans h), hrest,
      hbefore, lineNumber_add]
    exact ⟨rfl, trivial, hscopes⟩
  | modules list =>
    simp only [tell, used, inner, scan_modules h, scan_modules (hkind.trans h), hbefore,
      lineNumber_add]
    refine ⟨?_, trivial, hscopes⟩
    simp only [FileFacts.movedDown, modulesOf_add]
    rfl
  | other =>
    simp only [tell, used, inner, scan_other h, scan_other (hkind.trans h)]
    exact ⟨rfl, trivial, hscopes⟩
  | declaration declared =>
    have hsame : q.header? = p.header? := by rw [header?, header?, hline, hrest]
    have hindent : q.indent = p.indent := by rw [indent, indent, hline]
    obtain ⟨above, houter, habove, -⟩ := hscopes.stillOpen p.indent p.before
    have hq : q.outer = p.outer.map (·.movedDown n) ++ above := by
      rw [outer, outer, ← houter, hbefore, hindent]
    cases hheader : p.header? with
    | none =>
      simp only [tell, used, inner, scan_unfinished h hheader,
        scan_unfinished (hkind.trans h) (hsame.trans hheader)]
      exact ⟨rfl, trivial, above, hq, habove⟩
    | some found =>
      obtain ⟨header, size⟩ := found
      have hdeclaration := fun docs => declaration_under docs hbefore hline hrest hscopes
        declared header size
      simp only [tell, used, inner, scan_declaration h hheader,
        scan_declaration (hkind.trans h) (hsame.trans hheader), hdeclaration,
        Declaration.tell_movedDown, hq, hindent]
      exact ⟨trivial, trivial, above, rfl, habove⟩

end Stop

/-- The pass over lines further down tells the same, further down. -/
theorem tells_under {n : Nat} {scopes scopes' : List Scope} (h : Under n scopes scopes')
    (docs : Bool) (before : Nat) (lines : List (List Char)) :
    (stops (before + n) scopes' lines).map (·.tell docs) =
      ((stops before scopes lines).map (·.tell docs)).map (·.movedDown (UInt32.ofNat n)) := by
  fun_induction stops before scopes lines generalizing scopes' with
  | case1 => rw [stops]; rfl
  | case2 before scopes line rest p =>
    rename_i ih
    let q : Stop := ⟨before + n, scopes', line, rest⟩
    obtain ⟨htell, hused, hinner⟩ := Stop.scan_under (p := p) (q := q) docs rfl rfl rfl h
    have hplace : before + n + 1 + q.used = before + 1 + p.used + n := by rw [hused]; omega
    rw [stops, List.map_cons, List.map_cons, List.map_cons, ← ih hinner, htell, hplace, hused]

/-! ## Lines that follow -/

namespace Stop

variable {p : Stop} {later : List (List Char)}

/-- The stop when other lines follow its own. -/
def followedBy (later : List (List Char)) (p : Stop) : Stop := { p with rest := p.rest ++ later }

/-- The blocks that a stop opens end in the text. -/
theorem inner_last {stop : Nat} (hstop : stop = p.before + 1 + p.rest.length)
    (hscopes : ∀ s ∈ p.scopes, s.last < stop) : ∀ s ∈ p.inner, s.last < stop := by
  have houter : ∀ s ∈ p.outer, s.last < stop := fun s hs =>
    hscopes s ((List.dropWhile_sublist _).subset hs)
  cases h : p.kind with
  | decorator | fromModule | modules | other =>
    rwa [inner_eq_scopes fun declared heq => by rw [h] at heq; cases heq]
  | declaration declared =>
    cases hheader : p.header? with
    | none => simpa only [inner, scan_unfinished h hheader] using houter
    | some found =>
      obtain ⟨header, size⟩ := found
      obtain ⟨-, hle, -⟩ := readOn_size hheader
      have hblock := length_blockOf_le p.indent (p.rest.drop (size - 1))
      have hlast : (p.declaration false declared header size).last < stop := by
        change p.before + (size - 1) + _ < stop
        rw [List.length_drop] at hblock
        rw [List.length_cons] at hle
        omega
      simp only [inner, scan_declaration h hheader]
      exact List.forall_mem_cons.2 ⟨hlast, houter⟩

/-- Lines that begin in the first column have no part in what ends before them. -/
theorem scan_followedBy (h : p.Ends) (hlater : StartsInFirstColumn later) (docs : Bool) :
    (p.followedBy later).scan docs = p.scan docs := by
  cases hkind : p.kind with
  | decorator => rw [scan_decorator hkind, scan_decorator (p := p.followedBy later) hkind]; rfl
  | fromModule source names =>
    rw [scan_fromModule hkind, scan_fromModule (p := p.followedBy later) hkind]
    unfold followedBy
    rw [namesOver_append (h.list source names hkind)]
  | modules list => rw [scan_modules hkind, scan_modules (p := p.followedBy later) hkind]; rfl
  | other => rw [scan_other hkind, scan_other (p := p.followedBy later) hkind]; rfl
  | declaration declared =>
    obtain ⟨⟨header, size⟩, hheader⟩ := Option.isSome_iff_exists.1 (h.header declared hkind)
    obtain ⟨-, hle, -⟩ := readOn_size hheader
    have hsame : (p.followedBy later).header? = some (header, size) :=
      readOn_append hheader later
    have hdeclaration : (p.followedBy later).declaration docs declared header size =
        p.declaration docs declared header size := by
      unfold declaration followedBy indent outer
      dsimp only
      rw [List.drop_append_of_le_length (Nat.sub_le_of_le_add hle), blockOf_append hlater]
      rfl
    rw [scan_declaration hkind hheader,
      scan_declaration (p := p.followedBy later) hkind hsame, hdeclaration]
    rfl

end Stop

/-- The pass over lines that end what they begin: it goes on to the lines after them, with blocks
that have ended. -/
theorem stops_append {before : Nat} {scopes : List Scope} {lines later : List (List Char)}
    (h : ∀ p ∈ stops before scopes lines, p.Ends) (hlater : StartsInFirstColumn later)
    (hscopes : ∀ s ∈ scopes, s.last < before + lines.length) :
    ∃ ended, (∀ s ∈ ended, s.last < before + lines.length) ∧
      stops before scopes (lines ++ later) =
        (stops before scopes lines).map (·.followedBy later) ++
          stops (before + lines.length) ended later := by
  fun_induction stops before scopes lines with
  | case1 => exact ⟨_, hscopes, rfl⟩
  | case2 before scopes line rest p =>
    rename_i ih
    have hends : p.Ends := h p List.mem_cons_self
    have hused : p.used ≤ rest.length := p.used_le
    have hstop : before + (line :: rest).length =
        before + 1 + p.used + (rest.drop p.used).length := by
      rw [List.length_cons, List.length_drop]
      omega
    have hinner : ∀ s ∈ p.inner, s.last < before + (line :: rest).length :=
      p.inner_last (by rw [List.length_cons, Nat.add_right_comm, Nat.add_assoc]) hscopes
    rw [hstop] at hinner ⊢
    obtain ⟨ended, hended, heq⟩ := ih (fun q hq => h q (List.mem_cons_of_mem p hq)) hinner
    refine ⟨ended, hended, ?_⟩
    have hscan : (p.followedBy later).scan false = p.scan false :=
      Stop.scan_followedBy hends hlater false
    have hsame : (p.followedBy later).used = p.used ∧ (p.followedBy later).inner = p.inner :=
      ⟨congrArg (·.2.1) hscan, congrArg (·.2.2) hscan⟩
    have hstep : stops before scopes (line :: rest ++ later) =
        p.followedBy later :: stops (before + 1 + p.used) p.inner (rest.drop p.used ++ later) := by
      rw [← List.drop_append_of_le_length hused, ← hsame.1, ← hsame.2, List.cons_append, stops]
      rfl
    rw [hstep, heq, List.map_cons, List.cons_append]

/-! ## One text after the other -/

/-- All that begins in the text also ends in it. -/
def EndsWithin (source : String) : Prop := ∀ p ∈ stopsOf source, p.Ends

instance (source : String) : Decidable (EndsWithin source) :=
  inferInstanceAs (Decidable (∀ p ∈ stopsOf source, p.Ends))

/-- Of two texts, the first of which ends with its line and ends all that begins in it, and the
second of which begins in the first column, the survey tells what it tells of the first, and
after that what it tells of the second, with its lines further down. -/
theorem survey_append (docs : Bool) {s t : String}
    (hline : s = "" ∨ s.toList.getLast? = some '\n') (hends : EndsWithin s)
    (hcolumn : StartsInFirstColumn (lines t.toList)) :
    survey docs (s ++ t) = survey docs s ++
      (survey docs t).movedDown (UInt32.ofNat (lineCount s.toList)) := by
  have hlines : lines (s ++ t).toList = lines s.toList ++ lines t.toList := by
    rw [String.toList_append]
    refine lines_append (hline.imp_left fun h => ?_) _
    rw [h]
    rfl
  obtain ⟨ended, hended, heq⟩ := stops_append hends hcolumn (by simp)
  have hunder : Under (lines s.toList).length [] ended :=
    ⟨ended, rfl, fun s hs => by simpa using hended s hs⟩
  have hfirst : (stopsOf s).map (fun p => (p.followedBy (lines t.toList)).tell docs) =
      (stopsOf s).map (·.tell docs) :=
    List.map_congr_left fun p hp =>
      congrArg Prod.fst (Stop.scan_followedBy (hends p hp) hcolumn docs)
  rw [survey_eq, survey_eq, survey_eq, stopsOf, hlines, heq, List.map_append, List.map_map,
    FileFacts.concat_append, ← FileFacts.concat_movedDown, ← length_lines,
    tells_under hunder]
  exact congrArg (FileFacts.concat · ++ _) hfirst

namespace Seam

/-- An import over three lines, with a closing parenthesis in a comment, and a class whose method
has a header over two lines, the second further out than the first. -/
def first : String :=
  "from m import (  # )\n    a as b,\n)\n\nclass C:\n    async def f(self,\n  x: int):\n        \"\"\"doc\"\"\"\n\n"

/-- A blank line, a line in the first column, and a definition that is indented as if it were in
the class. -/
def second : String := "\nx = 1\n    def g(): pass\n"

end Seam

/-- The definition of the second text is no method of the class in the first. -/
theorem survey_append_at_seam :
    (Seam.first = "" ∨ Seam.first.toList.getLast? = some '\n') ∧ EndsWithin Seam.first ∧
      StartsInFirstColumn (lines Seam.second.toList) ∧
      survey true (Seam.first ++ Seam.second) =
        survey true Seam.first ++ (survey true Seam.second).movedDown 9 ∧
      (survey true (Seam.first ++ Seam.second)).facts.map (fun f => (f.name, f.startLine)) =
        [("C", 5), ("C.f", 6), ("g", 12)] := by
  have hline : Seam.first = "" ∨ Seam.first.toList.getLast? = some '\n' := .inr (by decide +kernel)
  have hends : EndsWithin Seam.first := by decide +kernel
  have hcolumn : StartsInFirstColumn (lines Seam.second.toList) := by decide +kernel
  exact ⟨hline, hends, hcolumn, survey_append true hline hends hcolumn, by decide +kernel⟩

end Python

end CodeSurvey
