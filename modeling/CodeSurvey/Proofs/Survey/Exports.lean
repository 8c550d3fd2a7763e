-- The exports that the surveys of lines tell of are those of their exported facts.
-- In Go methods have none; in Python what stands in a class has none, and the class
-- right around it decides whether it is exported.
import CodeSurvey.Proofs.Go.Pass
import CodeSurvey.Proofs.Python.Nesting

namespace CodeSurvey

open Text

theorem map_filter_eq_flatMap {α β : Type} (l : List α) (p : α → Bool) (f : α → β) :
    (l.filter p).map f = l.flatMap fun a => if p a then [f a] else [] := by
  induction l with
  | nil => rfl
  | cons a l ih =>
    rw [List.flatMap_cons, ← ih]
    by_cases ha : p a = true
    · simp [ha]
    · simp [ha]

/-! ## Go -/

namespace Go

theorem exports_exportOf (name : List Char) (line : UInt32) :
    (exportOf name line).map (fun e => (e.name, e.line)) =
      if isExported name then [(String.ofList name, line)] else [] := by
  unfold exportOf
  split <;> rfl

/-- What a stop tells is exported is its fact, unless it is a method. -/
theorem Stop.exports_tell (docs : Bool) (p : Stop) :
    (p.tell docs).exports.map (fun e => (e.name, e.line)) =
      ((p.tell docs).facts.filter fun f => f.exported && f.kind != .method).map
        fun f => (f.name, f.startLine) := by
  unfold tell
  split
  · rfl
  · rename_i head _
    have hkind : typeKind head.underlying ≠ .method := by
      unfold typeKind
      split
      · simp
      · split <;> simp
    unfold tellType
    dsimp only
    rw [exports_exportOf]
    by_cases hexported : isExported head.name = true
    · simp [Fact.bare, hexported, hkind]
    · simp [Fact.bare, hexported]
  · rename_i head _
    unfold tellFunc
    cases hreceiver : head.receiver with
    | some receiver => simp [Fact.bare]
    | none =>
      dsimp only
      rw [Option.isSome_none, if_neg Bool.false_ne_true, exports_exportOf]
      by_cases hexported : isExported head.name = true
      · simp [Fact.bare, hexported]
      · simp [Fact.bare, hexported]
  all_goals rfl

theorem exports_survey (docs : Bool) (source : String) :
    (survey docs source).exports.map (fun e => (e.name, e.line)) =
      ((survey docs source).facts.filter fun f => f.exported && f.kind != .method).map
        fun f => (f.name, f.startLine) := by
  rw [survey_eq]
  unfold FileFacts.concat
  dsimp only
  rw [List.flatMap_map, List.flatMap_map, List.map_flatMap, List.filter_flatMap, List.map_flatMap]
  simp only [Stop.exports_tell]

end Go

/-! ## Python -/

namespace Python

namespace Declaration

theorem exported_whole (d : Declaration) : d.whole.exported = d.exports d.declared.name := by
  unfold whole
  cases d.declared <;> rfl

theorem accessibility_whole (d : Declaration) :
    d.whole.accessibility = some (accessibilityOf d.declared.name) := by
  unfold whole
  cases d.declared <;> rfl

theorem exports_tell (d : Declaration) : d.tell.exports = d.exported d.declared.name := by
  unfold tell
  cases d.declared <;> rfl

end Declaration

theorem Stop.exports_tell (docs : Bool) (p : Stop) : (p.tell docs).exports =
    ((p.found? docs).toList.flatMap fun d => d.exported d.declared.name) := by
  unfold tell found?
  cases h : p.kind with
  | decorator => rw [scan_decorator h]; rfl
  | fromModule source names => rw [scan_fromModule h]; rfl
  | modules list => rw [scan_modules h]; rfl
  | other => rw [scan_other h]; rfl
  | declaration declared =>
    cases hheader : p.header? with
    | none => rw [scan_unfinished h hheader]; rfl
    | some found =>
      obtain ⟨header, size⟩ := found
      rw [scan_declaration h hheader]
      simp [Declaration.exports_tell]

theorem exports_survey (docs : Bool) (source : String) : (survey docs source).exports =
    (declarations docs source).flatMap fun d => d.exported d.declared.name := by
  rw [survey_eq]
  unfold FileFacts.concat declarations
  dsimp only
  rw [List.flatMap_map, List.filterMap_eq_flatMap_toList, List.flatMap_assoc]
  simp only [Stop.exports_tell]

/-- A declaration knows the class right around it, and whether it is outside of all blocks. -/
theorem Stop.around_found {docs : Bool} {p : Stop} {d : Declaration} (h : p.found? docs = some d) :
    d.enclosing = enclosingClass p.outer ∧ d.topLevel = (p.outer.isEmpty && p.indent == 0) := by
  unfold found? at h
  split at h
  · obtain ⟨_, -, rfl⟩ := Option.map_eq_some_iff.1 h
    exact ⟨rfl, rfl⟩
  · cases h

/-! ### Open blocks -/

/-- The declarations whose blocks are open after `before` lines, the innermost first. -/
structure Held (all : List Declaration) (before : Nat) (scopes : List Scope)
    (around : List Indented) : Prop where
  scopes : scopes = around.map scopeOf
  declared : ∀ e ∈ around, e.2 ∈ all ∧ e.2.before < before
  inward : around.Pairwise fun e o => o.2.before < e.2.before

namespace Held

variable {all : List Declaration} {before : Nat} {scopes : List Scope} {around : List Indented}

theorem nil : Held all 0 [] [] := ⟨rfl, by simp, .nil⟩

theorem later {n : Nat} (h : Held all before scopes around) (hn : before ≤ n) :
    Held all n scopes around := by
  refine ⟨h.scopes, ?_, h.inward⟩
  intro e he
  obtain ⟨hmem, hlt⟩ := h.declared e he
  exact ⟨hmem, Nat.lt_of_lt_of_le hlt hn⟩

/-- The blocks that a header does not close are held further. -/
theorem stillOpen (h : Held all before scopes around) (indent : Nat) :
    ∃ around', Held all before (stillOpen indent before scopes) around' := by
  refine ⟨around.dropWhile fun e => (scopeOf e).isOver indent before, ?_, ?_, ?_⟩
  · rw [stillOpen_eq, h.scopes, List.dropWhile_map]
    rfl
  · intro e he
    exact h.declared e ((List.dropWhile_sublist _).subset he)
  · exact h.inward.sublist (List.dropWhile_sublist _)

/-- A declaration opens its block within those around it. -/
theorem declare {d : Declaration} (h : Held all before scopes around) (hd : d ∈ all)
    (hbefore : d.before = before) (indent : Nat) {n : Nat} (hn : before < n) :
    Held all n (scopeOf (indent, d) :: scopes) ((indent, d) :: around) := by
  refine ⟨by rw [h.scopes, List.map_cons], ?_, ?_⟩
  · intro e he
    rcases List.mem_cons.1 he with rfl | he
    · exact ⟨hd, by dsimp only; omega⟩
    · exact (h.later (Nat.le_of_lt hn)).declared e he
  · refine List.pairwise_cons.2 ⟨?_, h.inward⟩
    intro o ho
    have := (h.declared o ho).2
    dsimp only
    omega

/-- What a stop leaves open is held after it. -/
theorem inner {docs : Bool} {p : Stop} (h : Held all p.before p.scopes around)
    (hall : ∀ d, p.found? docs = some d → d ∈ all) :
    ∃ around', Held all (p.before + 1 + p.used) p.inner around' := by
  have hle : p.before ≤ p.before + 1 + p.used := by omega
  cases hkind : p.kind with
  | decorator | fromModule | modules | other =>
    rw [Stop.inner_eq_scopes fun declared heq => by rw [hkind] at heq; cases heq]
    exact ⟨around, h.later hle⟩
  | declaration declared =>
    obtain ⟨outer, houter⟩ := h.stillOpen p.indent
    cases hheader : p.header? with
    | none =>
      rw [Stop.inner, Stop.scan_unfinished hkind hheader]
      exact ⟨outer, houter.later hle⟩
    | some found =>
      obtain ⟨header, size⟩ := found
      have hfound : p.found? docs = some (p.declaration docs declared header size) := by
        unfold Stop.found?
        rw [hkind]
        simp [hheader]
      have hscan : p.scan false = _ := Stop.scan_declaration hkind hheader
      have hinner : p.inner =
          scopeOf (p.indent, p.declaration docs declared header size) :: p.outer :=
        congrArg (·.2.2) hscan
      rw [hinner]
      exact ⟨_, houter.declare (hall _ hfound) rfl p.indent (by omega)⟩

end Held

/-- Around each stop the pass holds open blocks of declarations before it. -/
theorem held_stops {all : List Declaration} {before : Nat} {scopes : List Scope}
    {around : List Indented} {lines : List (List Char)} (docs : Bool)
    (h : Held all before scopes around)
    (hall : ∀ p ∈ stops before scopes lines, ∀ d, p.found? docs = some d → d ∈ all) :
    ∀ p ∈ stops before scopes lines, ∃ around', Held all p.before p.outer around' := by
  fun_induction stops before scopes lines generalizing around with
  | case1 => simp
  | case2 before scopes line rest first =>
    rename_i ih
    intro p hp
    rcases List.mem_cons.1 hp with rfl | hp
    · exact h.stillOpen first.indent
    · obtain ⟨inner, hinner⟩ := Held.inner (p := first) h (hall first List.mem_cons_self)
      exact ih hinner (fun q hq => hall q (List.mem_cons_of_mem first hq)) p hp

/-- Whether the fact of a declaration with the indent is exported, by the declarations whose blocks
are open around it, the innermost first: in a class, as that class says; in a function, never; and
outside of all blocks in the first column without an underscore in front. -/
structure Declaration.ExportedIn (d : Declaration) (indent : Nat) (around : List Indented) :
    Prop where
  inClass : ∀ c ∈ around.head?, c.2.whole.kind = .class_ →
    (d.whole.exported = true ↔ c.2.whole.exported = true ∧ d.whole.accessibility = some .isPublic)
  inFunction : ∀ c ∈ around.head?, c.2.whole.kind ≠ .class_ → d.whole.exported = false
  alone : around = [] → (d.whole.exported = true ↔ indent = 0 ∧ d.declared.name.head? ≠ some '_')

/-- The class right around the first of the open blocks is that of its declaration. -/
theorem enclosingClass_map (c : Indented) (outer : List Indented) :
    enclosingClass ((c :: outer).map scopeOf) = c.2.asClass := by
  rw [enclosingClass_eq]
  rfl

theorem Stop.exportedIn {docs : Bool} {p : Stop} {d : Declaration} {around : List Indented}
    (h : p.found? docs = some d) (hscopes : p.outer = around.map scopeOf) :
    d.ExportedIn p.indent around := by
  obtain ⟨henclosing, htop⟩ := around_found h
  rw [hscopes] at henclosing htop
  cases around with
  | nil =>
    refine ⟨by simp, by simp, fun _ => ?_⟩
    have hnone : d.enclosing = none := henclosing
    have htop : d.topLevel = (p.indent == 0) := by simpa using htop
    rw [d.exported_whole, Declaration.exports, hnone]
    simp [htop, ← startsWith_singleton]
  | cons c outer =>
    rw [enclosingClass_map, c.2.asClass_eq] at henclosing
    have htop : d.topLevel = false := by simpa using htop
    refine ⟨?_, ?_, fun hnil => by cases hnil⟩
    · rintro c ⟨⟩ hclass
      rw [if_pos hclass] at henclosing
      rw [d.exported_whole, d.accessibility_whole, c.2.exported_whole, Declaration.exports,
        henclosing]
      simp
    · rintro c ⟨⟩ hfunction
      rw [if_neg hfunction] at henclosing
      rw [d.exported_whole, Declaration.exports, henclosing]
      simp [htop]

/-- A declaration has an export when its fact is exported and no class is around it. -/
theorem Stop.exported_eq {docs : Bool} {p : Stop} {d : Declaration} {around : List Indented}
    (h : p.found? docs = some d) (hscopes : p.outer = around.map scopeOf) :
    (d.exported d.declared.name).map (fun e => (e.name, e.line)) =
      if d.whole.exported && around.all (·.2.whole.kind != .class_) then
        [(d.whole.name, d.whole.startLine)]
      else [] := by
  obtain ⟨henclosing, htop⟩ := around_found h
  rw [hscopes] at henclosing htop
  unfold Declaration.exported
  rw [← d.exported_whole]
  cases around with
  | nil =>
    have hnone : d.enclosing = none := henclosing
    have hname : d.whole.name = String.ofList d.declared.name := by
      rw [d.name_whole, Declaration.qualify, hnone]
    have hlevel : d.whole.exported = true → d.topLevel = true := by
      rw [d.exported_whole, Declaration.exports, hnone]
      intro hexports
      exact (Bool.and_eq_true_iff.1 hexports).1
    by_cases hexported : d.whole.exported = true
    · simp [hexported, hlevel hexported, hname, d.startLine_whole]
    · simp [hexported]
  | cons c outer =>
    have htop : d.topLevel = false := by simpa using htop
    have hin := exportedIn h hscopes
    by_cases hclass : c.2.whole.kind = .class_
    · simp [htop, hclass]
    · simp [htop, hin.inFunction c rfl hclass]

/-- The declarations whose blocks are open around each declaration. -/
theorem exists_around (docs : Bool) (source : String) :
    ∃ around : Declaration → List Indented, ∀ d ∈ declarations docs source,
      ∃ p ∈ stopsOf source, p.found? docs = some d ∧
        Held (declarations docs source) d.before p.outer (around d) := by
  have hall : ∀ p ∈ stopsOf source, ∀ d, p.found? docs = some d → d ∈ declarations docs source :=
    fun p hp d hd => List.mem_filterMap.2 ⟨p, hp, hd⟩
  have hnil : Held (declarations docs source) 0 [] [] := .nil
  have hheld := held_stops docs hnil hall
  have hexists : ∀ d ∈ declarations docs source, ∃ around : List Indented, ∃ p ∈ stopsOf source,
      p.found? docs = some d ∧ Held (declarations docs source) d.before p.outer around := by
    intro d hd
    obtain ⟨p, hp, hfound⟩ := List.mem_filterMap.1 hd
    obtain ⟨around, haround⟩ := hheld p hp
    exact ⟨around, p, hp, hfound, Stop.before_of_found hfound ▸ haround⟩
  choose! around haround using hexists
  exact ⟨around, haround⟩

end Python

/-! ## Both -/

/-- What is exported of a Go text are its exported facts but the methods. What is exported of a
Python text are its exported facts with no class around them; a fact right in the block of a class
is exported when that class is and its own name is public, and one right in the block of a function
is not, also when there is a class further out. -/
theorem exports_are_exported_facts (docs : Bool) (source : String) :
    (Go.survey docs source).exports.map (fun e => (e.name, e.line)) =
        ((Go.survey docs source).facts.filter fun f => f.exported && f.kind != .method).map
          (fun f => (f.name, f.startLine)) ∧
      (Python.survey docs source).facts =
        (Python.declarations docs source).map Python.Declaration.whole ∧
      ∃ around : Python.Declaration → List Python.Indented,
        (∀ d ∈ Python.declarations docs source, ∃ p ∈ Python.stopsOf source,
          p.found? docs = some d ∧
            Python.Held (Python.declarations docs source) d.before p.outer (around d) ∧
            d.ExportedIn p.indent (around d)) ∧
        (Python.survey docs source).exports.map (fun e => (e.name, e.line)) =
          ((Python.declarations docs source).filter fun d =>
            d.whole.exported && (around d).all (·.2.whole.kind != .class_)).map
              (fun d => (d.whole.name, d.whole.startLine)) := by
  obtain ⟨around, haround⟩ := Python.exists_around docs source
  refine ⟨Go.exports_survey docs source, Python.facts_survey docs source, around, ?_, ?_⟩
  · intro d hd
    obtain ⟨p, hp, hfound, hheld⟩ := haround d hd
    exact ⟨p, hp, hfound, hheld, Python.Stop.exportedIn hfound hheld.scopes⟩
  · rw [Python.exports_survey, List.map_flatMap, map_filter_eq_flatMap]
    apply List.flatMap_congr
    intro d hd
    obtain ⟨p, hp, hfound, hheld⟩ := haround d hd
    exact Python.Stop.exported_eq hfound hheld.scopes

namespace Inner

/-- A function in a method of a class, each with a public name. -/
def source : String := "class A:\n    def m(self):\n        def inner(): pass\n"

end Inner

/-- The innermost class around the inner function is exported, and its own name is public; yet it is
not exported, since a function is right around it. -/
theorem function_in_method_is_not_exported :
    (∃ p ∈ Python.stopsOf Inner.source, p.line = "        def inner(): pass".toList ∧
      p.outer.map (·.owner) = [.function, .class_ ['A'] true]) ∧
    (Python.survey true Inner.source).facts.map
        (fun f => (f.name, f.kind, f.exported, f.accessibility)) =
      [("A", .class_, true, some .isPublic), ("A.m", .method, true, some .isPublic),
        ("inner", .function, false, some .isPublic)] := by
  exact ⟨by decide +kernel, by decide +kernel⟩

end CodeSurvey
