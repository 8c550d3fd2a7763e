-- Which facts of a syntax tree are exported: those whose node stands in an export statement, and
-- those whose name is listed by one that passes nothing on from another file. A method goes with
-- its class.
import CodeSurvey.Proofs.TypeScript.Piece
import CodeSurvey.Proofs.TypeScript.Walk

namespace CodeSurvey.TypeScript

open Text

/-! ## Lists of a file's own names -/

/-- The node is an export statement without a source, and neither a default nor a declaration; in
its braces the name stands in front of the one under which it is given out. -/
structure ListsOwn (s : Source) (t : Tree) (name : String) : Prop where
  isExport : t.kind = .exportStatement
  no_default : ∀ c ∈ t.children, c.kind ≠ .word "default"
  no_declaration : t.child? .declaration = none
  no_source : t.child? .source = none
  listed : ∃ clause, t.childOfKind? .exportClause = some clause ∧
    ∃ spec ∈ clause.namedChildren, spec.kind = .exportSpecifier ∧
      ∃ n, spec.child? .name = some n ∧ s.nameOf n = name

theorem mem_map_listedNames {s : Source} {clause : Tree} {name : String} :
    name ∈ (listedNames s clause).map (·.1) ↔
      ∃ spec ∈ clause.namedChildren, spec.kind = .exportSpecifier ∧
        ∃ n, spec.child? .name = some n ∧ s.nameOf n = name := by
  unfold listedNames
  rw [List.map_filterMap, List.mem_filterMap]
  refine exists_congr fun spec => and_congr_right fun _ => ?_
  by_cases hkind : spec.kind = .exportSpecifier
  · simp [hkind]
  · simp [hkind]

theorem mem_localExportsOf {s : Source} {t : Tree} {name : String} :
    name ∈ localExportsOf s t ↔ ListsOwn s t name := by
  unfold localExportsOf
  constructor
  · intro h
    split at h
    · rename_i hown
      simp only [Bool.and_eq_true, beq_iff_eq, Bool.not_eq_true', Option.isNone_iff_eq_none,
        Tree.hasChildOfKind, List.any_eq_false] at hown
      obtain ⟨⟨⟨hexport, hdefault⟩, hdeclaration⟩, hsource⟩ := hown
      cases hclause : t.childOfKind? .exportClause with
      | none => rw [hclause] at h; cases h
      | some clause =>
        rw [hclause] at h
        exact ⟨hexport, hdefault, hdeclaration, hsource, clause, hclause, mem_map_listedNames.1 h⟩
    · cases h
  · rintro ⟨hexport, hdefault, hdeclaration, hsource, clause, hclause, hlisted⟩
    have hnot : t.hasChildOfKind (.word "default") = false := by
      simpa [Tree.hasChildOfKind] using hdefault
    rw [if_pos (by simp [hexport, hnot, hdeclaration, hsource]), hclause]
    exact mem_map_listedNames.2 hlisted

/-! ## The facts of a place -/

/-- The names that the export statements of a tree list of its own. -/
def listedIn (s : Source) (t : Tree) : List String :=
  (Place.walk t).flatMap fun p => localExportsOf s p.node

/-- The facts that the place gives, before the lists are looked at. -/
def foundAt (s : Source) (p : Place) : List Fact := (pieceAt s p).facts

def classesIn (s : Source) (t : Tree) : List String :=
  (((Place.walk t).flatMap (foundAt s)).filter fun f => f.kind == .class_).map (·.name)

/-- The facts that the survey of a tree tells of a place. -/
def factsAt (s : Source) (t : Tree) (p : Place) : List Fact :=
  (foundAt s p).map (exportListed (listedIn s t) (classesIn s t))

theorem facts_surveyTree (s : Source) (t : Tree) :
    (surveyTree s t).facts = (Place.walk t).flatMap (factsAt s t) := by
  unfold surveyTree surveyPlaces FileFacts.concat factsAt
  dsimp only
  rw [List.flatMap_map, ← List.map_flatMap]
  rfl

theorem mem_listedIn {s : Source} {t : Tree} {name : String} :
    name ∈ listedIn s t ↔ ∃ q ∈ Place.walk t, ListsOwn s q.node name := by
  unfold listedIn
  rw [List.mem_flatMap]
  exact exists_congr fun q => and_congr_right fun _ => mem_localExportsOf

/-! ## Marks on facts -/

section Marks

variable (listed classes : List String) (f : Fact)

@[simp] theorem name_exportListed : (exportListed listed classes f).name = f.name := by
  unfold exportListed
  dsimp only
  split <;> rfl

@[simp] theorem kind_exportListed : (exportListed listed classes f).kind = f.kind := by
  unfold exportListed
  dsimp only
  split <;> rfl

@[simp] theorem exportedName_exportListed :
    exportedName (exportListed listed classes f) = exportedName f := by
  unfold exportedName
  simp

theorem exported_exportListed : (exportListed listed classes f).exported = true ↔
    f.exported = true ∨
      exportedName f ∈ listed ∧ (f.kind = .method → exportedName f ∈ classes) := by
  unfold exportListed
  by_cases hlisted : exportedName f ∈ listed
  · by_cases hmethod : f.kind = .method
    · by_cases hclass : exportedName f ∈ classes
      · simp [hlisted, hmethod, hclass]
      · simp [hlisted, hmethod, hclass]
    · simp [hlisted, hmethod]
  · simp [hlisted]

end Marks

theorem mem_classesIn {s : Source} {t : Tree} {name : String} : name ∈ classesIn s t ↔
    ∃ c ∈ Place.walk t, ∃ g ∈ factsAt s t c, g.kind = .class_ ∧ g.name = name := by
  unfold classesIn factsAt
  simp only [List.mem_map, List.mem_filter, List.mem_flatMap, beq_iff_eq]
  constructor
  · rintro ⟨g, ⟨⟨c, hc, hg⟩, hclass⟩, rfl⟩
    exact ⟨c, hc, _, ⟨g, hg, rfl⟩, by simpa using hclass, by simp⟩
  · rintro ⟨c, hc, _, ⟨g, hg, rfl⟩, hclass, rfl⟩
    exact ⟨g, ⟨⟨c, hc, hg⟩, by simpa using hclass⟩, by simp⟩

/-! ## What a node gives -/

/-- Whatever a place gives is exported where an export statement stands above it, where its name is
listed, and, if it is a method, a class has the name of its class. -/
theorem exported_factsAt {s : Source} {t : Tree} {p : Place} {f : Fact} (h : f ∈ factsAt s t p) :
    f.exported = true ↔ p.isInside .exportStatement = true ∨
      exportedName f ∈ listedIn s t ∧ (f.kind = .method → exportedName f ∈ classesIn s t) := by
  obtain ⟨g, hg, rfl⟩ := List.mem_map.1 h
  rw [exported_exportListed, (isAbout_pieceAt hg).exported, kind_exportListed,
    exportedName_exportListed]

/-- A class that is declared has one fact. -/
theorem factsAt_declared {s : Source} {t n : Tree} {c : Place}
    (hdeclares : c.node.kind = .classDeclaration ∨ c.node.kind = .abstractClassDeclaration)
    (hn : c.node.child? .name = some n) :
    ∃ g, factsAt s t c = [g] ∧ g.kind = .class_ ∧ g.name = s.nameOf n := by
  have hfound : ∃ g, foundAt s c = [g] ∧ g.kind = .class_ ∧ g.name = s.nameOf n := by
    unfold foundAt pieceAt typeOf named?
    rcases hdeclares with hclass | hclass
    · rw [hclass, hn]
      exact ⟨_, rfl, rfl, rfl⟩
    · rw [hclass, hn]
      exact ⟨_, rfl, rfl, rfl⟩
  obtain ⟨g, hg, hkind, hname⟩ := hfound
  unfold factsAt
  rw [hg]
  exact ⟨_, rfl, by simpa using hkind, by simpa using hname⟩

/-! ## Methods and their classes -/

/-- Up to its first dot, the name of a method is that of its owner, if that has no dot. -/
theorem exportedName_of_owner {s : Source} {t : Tree} {p : Place} {f : Fact} {owner : String}
    (hmethod : p.node.kind = .methodDefinition) (howner : ownerName? s p = some owner)
    (hdot : '.' ∉ owner.toList) (hf : f ∈ factsAt s t p) :
    f.kind = .method ∧ exportedName f = owner := by
  obtain ⟨g, hg, rfl⟩ := List.mem_map.1 hf
  have hg : g ∈ (methodOf s p).facts := by
    unfold foundAt pieceAt at hg
    rwa [hmethod] at hg
  obtain ⟨-, hkind, owner', m, howner', -, hname⟩ := mem_facts_methodOf hg
  obtain rfl := Option.some.inj (howner.symm.trans howner')
  have hplain : ∀ d ∈ owner.toList, decide (d ≠ '.') = true := by
    intro d hd
    have : d ≠ '.' := fun heq => hdot (heq ▸ hd)
    simpa using this
  refine ⟨by rwa [kind_exportListed], ?_⟩
  rw [exportedName_exportListed, exportedName, hkind, hname]
  simp only [String.toList_append, List.append_assoc]
  rw [List.takeWhile_append_of_pos hplain]
  simp

/-- A class and its body are no export statements. -/
theorem isInside_of_above {p c : Place} {body : Tree} {e₁ e₂ : List Tree}
    (hclass : isClass c.node.kind = true) (hbody : body.kind = .classBody)
    (habove : p.above = ⟨body, e₁⟩ :: ⟨c.node, e₂⟩ :: c.above) :
    p.isInside .exportStatement = c.isInside .exportStatement := by
  have hbody : (body.kind == .exportStatement) = false := by rw [hbody]; rfl
  have hclass : (c.node.kind == .exportStatement) = false := by
    refine beq_eq_false_iff_ne.2 fun hkind => ?_
    rw [hkind] at hclass
    cases hclass
  unfold Place.isInside
  simp [habove, hbody, hclass]

/-- The node of the first place is a method in the body of a class declaration, and that is the
node of the second. -/
structure IsMethodOf (p c : Place) : Prop where
  isMethod : p.node.kind = .methodDefinition
  declares : c.node.kind = .classDeclaration ∨ c.node.kind = .abstractClassDeclaration
  above : ∃ body e₁ e₂, body.kind = .classBody ∧ p.above = ⟨body, e₁⟩ :: ⟨c.node, e₂⟩ :: c.above

namespace IsMethodOf

variable {s : Source} {t : Tree} {p c : Place} {n : Tree} {f : Fact}

theorem mem_walk (h : IsMethodOf p c) (hp : p ∈ Place.walk t) : c ∈ Place.walk t := by
  obtain ⟨body, e₁, e₂, -, habove⟩ := h.above
  exact Place.parent_mem_walk (Place.parent_mem_walk hp habove) rfl

theorem isClass_owner (h : IsMethodOf p c) : isClass c.node.kind = true := by
  rcases h.declares with hclass | hclass
  · rw [hclass]
    rfl
  · rw [hclass]
    rfl

theorem isInside (h : IsMethodOf p c) :
    p.isInside .exportStatement = c.isInside .exportStatement := by
  obtain ⟨body, e₁, e₂, hbody, habove⟩ := h.above
  exact isInside_of_above h.isClass_owner hbody habove

theorem ownerName? (h : IsMethodOf p c) (hn : c.node.child? .name = some n) :
    TypeScript.ownerName? s p = some (s.nameOf n) := by
  obtain ⟨body, e₁, e₂, hbody, habove⟩ := h.above
  unfold TypeScript.ownerName?
  simp [habove, hbody, h.isClass_owner, hn]

/-- The class has a fact of its own. -/
theorem factsAt_class (h : IsMethodOf p c) (hn : c.node.child? .name = some n) :
    ∃ g, factsAt s t c = [g] ∧ g.kind = .class_ ∧ g.name = s.nameOf n :=
  factsAt_declared h.declares hn

theorem exportedName_method (h : IsMethodOf p c) (hn : c.node.child? .name = some n)
    (hdot : '.' ∉ s.textOf n) (hf : f ∈ factsAt s t p) :
    f.kind = .method ∧ exportedName f = s.nameOf n := by
  have hdot : '.' ∉ (s.nameOf n).toList := by rwa [Source.nameOf, String.toList_ofList]
  exact exportedName_of_owner h.isMethod (h.ownerName? hn) hdot hf

end IsMethodOf

/-- The facts that the survey of a tree tells are those of the places of its walk. A fact that is no
method is exported exactly when an export statement stands above its node or when, anywhere in the
tree, one without a source lists its name; a method, when one stands above it or when the name of
its class is listed and some class has it. So a method of a declared class is exported as the class
is. -/
theorem exported_iff_inside_or_listed (s : Source) (t : Tree) :
    (surveyTree s t).facts = (Place.walk t).flatMap (factsAt s t) ∧
    ∀ p ∈ Place.walk t, ∀ f ∈ factsAt s t p,
      (f.kind ≠ .method → (f.exported = true ↔ p.isInside .exportStatement = true ∨
        ∃ q ∈ Place.walk t, ListsOwn s q.node f.name)) ∧
      (f.kind = .method → (f.exported = true ↔ p.isInside .exportStatement = true ∨
        (∃ q ∈ Place.walk t, ListsOwn s q.node (exportedName f)) ∧
          ∃ c ∈ Place.walk t, ∃ g ∈ factsAt s t c, g.kind = .class_ ∧ g.name = exportedName f)) ∧
      ∀ c n, IsMethodOf p c → c.node.child? .name = some n → '.' ∉ s.textOf n →
        c ∈ Place.walk t ∧ ∃ g, factsAt s t c = [g] ∧ g.kind = .class_ ∧ g.name = s.nameOf n ∧
          f.exported = g.exported := by
  refine ⟨facts_surveyTree s t, fun p hp f hf => ?_⟩
  have hexported := exported_factsAt hf
  refine ⟨?_, ?_, ?_⟩
  · intro hkind
    have hname : exportedName f = f.name := by
      unfold exportedName
      split
      · exact absurd ‹_› hkind
      · rfl
    rw [hexported, hname, mem_listedIn]
    simp [hkind]
  · intro hkind
    rw [hexported, mem_listedIn, mem_classesIn]
    simp [hkind]
  · intro c n hmethod hn hdot
    have hc := hmethod.mem_walk hp
    obtain ⟨g, hg, hclass, hname⟩ := hmethod.factsAt_class (s := s) (t := t) hn
    obtain ⟨hkind, howner⟩ := hmethod.exportedName_method hn hdot hf
    have hmem : g ∈ factsAt s t c := by simp [hg]
    have hknown : s.nameOf n ∈ classesIn s t := mem_classesIn.2 ⟨c, hc, g, hmem, hclass, hname⟩
    have hgname : exportedName g = s.nameOf n := by
      unfold exportedName
      rw [hclass, hname]
    refine ⟨hc, g, hg, hclass, hname, ?_⟩
    rw [Bool.eq_iff_iff, hexported, exported_factsAt hmem, howner, hgname, hmethod.isInside]
    simp [hkind, hclass, hknown]

namespace Listed

/-- A class that is listed before it is declared, and a function whose name is only passed on from
another file. -/
def text : String :=
  "export \x7b A \x7d;\nclass A \x7b m() \x7b\x7d \x7d\n" ++
    "export \x7b A as B, f \x7d from './b';\nfunction f() \x7b\x7d\n"

def source : Source := ⟨text.toList.toArray, true⟩

def tree : Tree := parse false text.toList

end Listed

/-- The method of the listed class is exported as the class is, and the function is not. -/
theorem exported_iff_of_listed_class :
    (∃ p ∈ Place.walk Listed.tree, ∃ f ∈ factsAt Listed.source Listed.tree p, ∃ c n, IsMethodOf p c ∧
      c.node.child? .name = some n ∧ '.' ∉ Listed.source.textOf n ∧ c ∈ Place.walk Listed.tree ∧
      ∃ g, factsAt Listed.source Listed.tree c = [g] ∧ g.kind = .class_ ∧
        g.name = Listed.source.nameOf n ∧ f.exported = g.exported) ∧
    (surveyTree Listed.source Listed.tree).facts.map (fun f => (f.name, f.exported)) =
      [("A", true), ("A.m", true), ("f", false)] := by
  refine ⟨?_, by decide +kernel⟩
  have hplace : ∃ p ∈ Place.walk Listed.tree, p.node.kind = .methodDefinition ∧
      p.above.map (·.parent.kind) = [.classBody, .classDeclaration, .other "program"] ∧
      (p.above[1]?.bind (·.parent.child? .name)).map Listed.source.textOf = some ['A'] ∧
      (factsAt Listed.source Listed.tree p).length = 1 := by
    decide +kernel
  obtain ⟨⟨node, above⟩, hp, hmethod, hkinds, hname, hlength⟩ := hplace
  obtain ⟨f, hf⟩ := List.length_eq_one_iff.1 hlength
  match above with
  | ⟨body, e₁⟩ :: ⟨owner, e₂⟩ :: above =>
    simp only [List.map_cons, List.cons.injEq] at hkinds
    obtain ⟨hbody, howner, -⟩ := hkinds
    obtain ⟨n, hn, htext⟩ := Option.map_eq_some_iff.1 hname
    have hmember : IsMethodOf ⟨node, ⟨body, e₁⟩ :: ⟨owner, e₂⟩ :: above⟩ ⟨owner, above⟩ :=
      ⟨hmethod, .inl howner, body, e₁, e₂, hbody, rfl⟩
    have hdot : '.' ∉ Listed.source.textOf n := by simp [htext]
    have hf : f ∈ factsAt Listed.source Listed.tree ⟨node, ⟨body, e₁⟩ :: ⟨owner, e₂⟩ :: above⟩ := by
      simp [hf]
    have hexported := ((exported_iff_inside_or_listed Listed.source Listed.tree).2 _ hp f hf).2.2
    exact ⟨_, hp, f, hf, _, n, hmember, hn, hdot, hexported _ n hmember hn hdot⟩

end CodeSurvey.TypeScript
