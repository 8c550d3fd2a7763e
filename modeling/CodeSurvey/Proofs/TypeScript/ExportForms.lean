-- A class can be exported where it stands, in an export statement, or by a list of names somewhere
-- in the file. What the two forms say of its methods: for a class that is declared the same, and
-- for one that is the value of a variable the same only when a class that is declared has its name.
import CodeSurvey.Proofs.TypeScript.Exported
import Mathlib.Data.List.Forall2

namespace CodeSurvey.TypeScript

open Place

/-! ## Methods of a class -/

/-- The kinds of classes that are declared, and so have a fact of their own. -/
def isDeclaredClass (k : Kind) : Bool := k == .classDeclaration || k == .abstractClassDeclaration

/-- The name that the class at a place is bound to: by its declaration or, when it has no name of its
own, by the variable that it is the value of. -/
def boundName? (s : Source) (c : Place) : Option String :=
  if isDeclaredClass c.node.kind then (c.node.child? .name).map s.nameOf
  else if c.node.kind == .classExpression && (c.node.child? .name).isNone then
    match c.above with
    | ⟨holder, _⟩ :: _ =>
      if holder.kind == .variableDeclarator then (holder.child? .name).map s.nameOf else none
    | [] => none
  else none

/-- The methods in the bodies of a class. -/
def methodsIn (t : Tree) : List Tree :=
  (t.children.filter fun body => body.kind == .classBody).flatMap fun body =>
    body.children.filter fun m => m.kind == .methodDefinition

/-- The places of the methods of the class at a place. -/
def methodsOf (c : Place) : List Place :=
  (c.children.filter fun body => body.node.kind == .classBody).flatMap fun body =>
    body.children.filter fun m => m.node.kind == .methodDefinition

/-- What the survey of a tree tells of the methods of a class. -/
def methodFacts (s : Source) (t : Tree) (c : Place) : List Fact := (methodsOf c).flatMap (factsAt s t)

/-- Of each method that is told the name, and whether it is exported. -/
def methodMarks (s : Source) (t : Tree) (c : Place) : List (String × Bool) :=
  (methodFacts s t c).map fun f => (f.name, f.exported)

theorem map_node_methodsOf (c : Place) : (methodsOf c).map (·.node) = methodsIn c.node := by
  have hfilter : ∀ (p : Place) (k : Kind), (p.children.filter fun q => q.node.kind == k).map (·.node) =
      p.node.children.filter fun t => t.kind == k := by
    intro p k
    rw [← map_node_childrenFrom p p.node.children [], List.filter_map]
    rfl
  unfold methodsOf methodsIn
  rw [List.map_flatMap, ← hfilter c, List.flatMap_map]
  exact List.flatMap_congr fun body _ => hfilter body _

section Methods

variable {s : Source} {t : Tree} {c p : Place} {name : String} {f : Fact}

theorem mem_methodsOf (h : p ∈ methodsOf c) : p.node.kind = .methodDefinition ∧ Reaches c p ∧
    ∃ body e₁ e₂, body.kind = .classBody ∧ p.above = ⟨body, e₁⟩ :: ⟨c.node, e₂⟩ :: c.above := by
  obtain ⟨body, hbody, hp⟩ := List.mem_flatMap.1 h
  obtain ⟨hbody, hkind⟩ := List.mem_filter.1 hbody
  obtain ⟨hp, hmethod⟩ := List.mem_filter.1 hp
  obtain ⟨-, e₂, habove₂⟩ := mem_childrenFrom hbody
  obtain ⟨-, e₁, habove₁⟩ := mem_childrenFrom hp
  exact ⟨eq_of_beq hmethod, .child (.child .here hbody) hp, body.node, e₁, e₂, eq_of_beq hkind,
    by rw [habove₁, habove₂]⟩

theorem boundName?_cases (h : boundName? s c = some name) :
    (isDeclaredClass c.node.kind = true ∧ ∃ n, c.node.child? .name = some n ∧ s.nameOf n = name) ∨
    (c.node.kind = .classExpression ∧ c.node.child? .name = none ∧
      ∃ holder e above n, c.above = ⟨holder, e⟩ :: above ∧ holder.kind = .variableDeclarator ∧
        holder.child? .name = some n ∧ s.nameOf n = name) := by
  unfold boundName? at h
  split at h
  · rename_i hdeclared
    exact .inl ⟨hdeclared, Option.map_eq_some_iff.1 h⟩
  · split at h
    · rename_i hvalue
      simp only [Bool.and_eq_true, beq_iff_eq, Option.isNone_iff_eq_none] at hvalue
      split at h
      · rename_i holder e above habove
        split at h
        · rename_i hholder
          obtain ⟨n, hn, hname⟩ := Option.map_eq_some_iff.1 h
          exact .inr ⟨hvalue.1, hvalue.2, holder, e, above, n, habove, eq_of_beq hholder, hn, hname⟩
        · cases h
      · cases h
    · cases h

theorem isClass_of_boundName? (h : boundName? s c = some name) : isClass c.node.kind = true := by
  unfold isClass
  rcases boundName?_cases h with ⟨hdeclared, -⟩ | ⟨hvalue, -⟩
  · unfold isDeclaredClass at hdeclared
    rw [hdeclared, Bool.true_or]
  · rw [hvalue]
    rfl

theorem ownerName?_of_mem_methodsOf (h : boundName? s c = some name) (hp : p ∈ methodsOf c) :
    ownerName? s p = some name := by
  obtain ⟨-, -, body, e₁, e₂, hbody, habove⟩ := mem_methodsOf hp
  have hclass := isClass_of_boundName? h
  unfold ownerName?
  rcases boundName?_cases h with ⟨-, n, hn, rfl⟩ | ⟨-, hnone, holder, e, above, n, hc, hkind, hn, rfl⟩
  · simp [habove, hbody, hclass, hn]
  · simp [habove, hbody, hclass, hnone, hc, hkind, hn]

theorem isInside_of_mem_methodsOf (h : boundName? s c = some name) (hp : p ∈ methodsOf c) :
    p.isInside .exportStatement = c.isInside .exportStatement := by
  obtain ⟨-, -, body, e₁, e₂, hbody, habove⟩ := mem_methodsOf hp
  exact isInside_of_above (isClass_of_boundName? h) hbody habove

/-- A method is told by the name of its class and its own. -/
theorem map_name_factsAt (h : boundName? s c = some name) (hp : p ∈ methodsOf c) :
    (factsAt s t p).map (·.name) =
      ((p.node.child? .name).map fun n => name ++ "." ++ s.nameOf n).toList := by
  unfold factsAt foundAt pieceAt methodOf
  rw [(mem_methodsOf hp).1]
  dsimp only
  rw [ownerName?_of_mem_methodsOf h hp, List.map_map]
  unfold named?
  cases p.node.child? .name with
  | none => rfl
  | some n => simp [factPiece, asFunction, factAt, Fact.bare]

theorem mem_facts_of_mem_methodFacts (hc : c ∈ walk t) (hf : f ∈ methodFacts s t c) :
    f ∈ (surveyTree s t).facts := by
  obtain ⟨p, hp, hf⟩ := List.mem_flatMap.1 hf
  have hwalk : p ∈ walk t := mem_walk_iff.2 ((mem_walk_iff.1 hc).trans (mem_methodsOf hp).2.1)
  rw [facts_surveyTree]
  exact List.mem_flatMap.2 ⟨p, hwalk, hf⟩

end Methods

/-! ## Trees that are written alike -/

mutual

/-- The trees differ in nothing but where they stand: their nodes are of the same kinds and have the
same texts, and the parts that these play below the root are the same. -/
def alike (s₁ s₂ : Source) : Tree → Tree → Bool
  | .node k₁ _ n₁ span₁ cs₁, .node k₂ _ n₂ span₂ cs₂ =>
    k₁ == k₂ && n₁ == n₂ &&
      s₁.slice span₁.start.offset span₁.stop.offset ==
        s₂.slice span₂.start.offset span₂.stop.offset &&
      alikeAll s₁ s₂ cs₁ cs₂

/-- The trees are alike one by one, and play the same parts. -/
def alikeAll (s₁ s₂ : Source) : List Tree → List Tree → Bool
  | [], [] => true
  | a :: as, b :: bs => a.field == b.field && alike s₁ s₂ a b && alikeAll s₁ s₂ as bs
  | _, _ => false

end

section Alike

variable {s₁ s₂ : Source} {a b : Tree} {as bs : List Tree}

/-- Children that are alike, in the same part of their parents. -/
structure AlikeChild (s₁ s₂ : Source) (a b : Tree) : Prop where
  field : a.field = b.field
  alike : alike s₁ s₂ a b = true

theorem forall₂_of_alikeAll (h : alikeAll s₁ s₂ as bs = true) :
    List.Forall₂ (AlikeChild s₁ s₂) as bs := by
  induction as generalizing bs with
  | nil =>
    cases bs with
    | nil => exact .nil
    | cons b bs => cases h
  | cons a as ih =>
    cases bs with
    | nil => cases h
    | cons b bs =>
      simp only [alikeAll, Bool.and_eq_true, beq_iff_eq] at h
      exact .cons ⟨h.1.1, h.1.2⟩ (ih h.2)

/-- What being alike says of the nodes themselves and of their children. -/
theorem alike_node (h : alike s₁ s₂ a b = true) : a.kind = b.kind ∧ s₁.nameOf a = s₂.nameOf b ∧
    List.Forall₂ (AlikeChild s₁ s₂) a.children b.children := by
  obtain ⟨k₁, f₁, n₁, span₁, cs₁⟩ := a
  obtain ⟨k₂, f₂, n₂, span₂, cs₂⟩ := b
  simp only [alike, Bool.and_eq_true, beq_iff_eq] at h
  obtain ⟨⟨⟨hkind, -⟩, htext⟩, hchildren⟩ := h
  exact ⟨hkind, congrArg String.ofList htext, forall₂_of_alikeAll hchildren⟩

theorem alike_filter_kind (h : List.Forall₂ (AlikeChild s₁ s₂) as bs) (k : Kind) :
    List.Forall₂ (AlikeChild s₁ s₂) (as.filter fun a => a.kind == k)
      (bs.filter fun b => b.kind == k) := by
  refine List.rel_filter (fun a b hab => ?_) h
  change (a.kind == k) = true ↔ (b.kind == k) = true
  rw [(alike_node hab.alike).1]

theorem alike_methodsIn (h : alike s₁ s₂ a b = true) :
    List.Forall₂ (AlikeChild s₁ s₂) (methodsIn a) (methodsIn b) := by
  refine List.rel_flatMap (alike_filter_kind (alike_node h).2.2 _) fun c d hcd => ?_
  exact alike_filter_kind (alike_node hcd.alike).2.2 _

theorem alike_child? (h : alike s₁ s₂ a b = true) (f : Field) :
    (a.child? f).map s₁.nameOf = (b.child? f).map s₂.nameOf := by
  unfold Tree.child?
  have hchildren := (alike_node h).2.2
  generalize a.children = as, b.children = bs at hchildren
  induction hchildren with
  | nil => rfl
  | cons hcd _ ih =>
    rw [List.find?_cons, List.find?_cons, hcd.field]
    split
    · exact congrArg some (alike_node hcd.alike).2.1
    · exact ih

end Alike

/-! ## The two forms -/

section Forms

variable {s s₁ s₂ : Source} {t t₁ t₂ : Tree} {c c₁ c₂ : Place} {name : String}

theorem map_name_methodFacts (h : boundName? s c = some name) :
    (methodFacts s t c).map (·.name) = (methodsIn c.node).filterMap fun m =>
      ((m.child? .name).map s.nameOf).map fun own => name ++ "." ++ own := by
  unfold methodFacts
  rw [← map_node_methodsOf, List.map_flatMap, List.filterMap_map, List.filterMap_eq_flatMap_toList]
  refine List.flatMap_congr fun p hp => ?_
  rw [map_name_factsAt h hp, Function.comp_apply, Option.map_map]
  rfl

/-- Classes that are alike and have one name have methods of the same names. -/
theorem map_name_methodFacts_alike (h₁ : boundName? s₁ c₁ = some name)
    (h₂ : boundName? s₂ c₂ = some name) (halike : alike s₁ s₂ c₁.node c₂.node = true) :
    (methodFacts s₁ t₁ c₁).map (·.name) = (methodFacts s₂ t₂ c₂).map (·.name) := by
  rw [map_name_methodFacts h₁, map_name_methodFacts h₂]
  have hmethods := alike_methodsIn halike
  generalize methodsIn c₁.node = ms₁, methodsIn c₂.node = ms₂ at hmethods
  induction hmethods with
  | nil => rfl
  | cons hmn _ ih => rw [List.filterMap_cons, List.filterMap_cons, alike_child? hmn.alike, ih]

/-- All methods of a class have one mark. -/
theorem methodMarks_eq (h : boundName? s c = some name) (hdot : '.' ∉ name.toList) :
    methodMarks s t c = ((methodFacts s t c).map (·.name)).map fun own =>
      (own, c.isInside .exportStatement || decide (name ∈ listedIn s t ∧ name ∈ classesIn s t)) := by
  unfold methodMarks
  rw [List.map_map]
  refine List.map_congr_left fun f hf => ?_
  obtain ⟨p, hp, hf⟩ := List.mem_flatMap.1 hf
  obtain ⟨hkind, hname⟩ :=
    exportedName_of_owner (mem_methodsOf hp).1 (ownerName?_of_mem_methodsOf h hp) hdot hf
  have hexported := exported_factsAt hf
  rw [isInside_of_mem_methodsOf h hp, hname] at hexported
  refine congrArg (f.name, ·) (Bool.eq_iff_iff.2 ?_)
  rw [hexported, Bool.or_eq_true, decide_eq_true_iff]
  simp [hkind]

/-- The names of declared classes are those in which a list of exports is looked up for methods. -/
theorem mem_classesIn_of_declared (hc : c ∈ walk t) (h : boundName? s c = some name)
    (hdeclared : isDeclaredClass c.node.kind = true) : name ∈ classesIn s t := by
  obtain ⟨-, n, hn, rfl⟩ | ⟨hvalue, -⟩ := boundName?_cases h
  swap
  · rw [hvalue] at hdeclared
    cases hdeclared
  have hkind : c.node.kind = .classDeclaration ∨ c.node.kind = .abstractClassDeclaration := by
    simpa [isDeclaredClass] using hdeclared
  obtain ⟨g, hg, hclass, hname⟩ := factsAt_declared (s := s) (t := t) hkind hn
  exact mem_classesIn.2 ⟨c, hc, g, by simp [hg], hclass, hname⟩

/-- Two files have a class of one name, written alike: the first exports it where it stands, and the
second does not, but lists the name somewhere. -/
structure InTwoForms (s₁ s₂ : Source) (t₁ t₂ : Tree) (c₁ c₂ : Place) (name : String) : Prop where
  mem₁ : c₁ ∈ walk t₁
  mem₂ : c₂ ∈ walk t₂
  bound₁ : boundName? s₁ c₁ = some name
  bound₂ : boundName? s₂ c₂ = some name
  plain : '.' ∉ name.toList
  alike : alike s₁ s₂ c₁.node c₂.node = true
  inside : c₁.isInside .exportStatement = true
  outside : c₂.isInside .exportStatement = false
  listed : ∃ q ∈ walk t₂, ListsOwn s₂ q.node name

theorem InTwoForms.marks_eq_iff (h : InTwoForms s₁ s₂ t₁ t₂ c₁ c₂ name) :
    methodMarks s₁ t₁ c₁ = methodMarks s₂ t₂ c₂ ↔
      methodMarks s₂ t₂ c₂ = [] ∨ name ∈ classesIn s₂ t₂ := by
  have hnames : (methodFacts s₁ t₁ c₁).map (·.name) = (methodFacts s₂ t₂ c₂).map (·.name) :=
    map_name_methodFacts_alike h.bound₁ h.bound₂ h.alike
  have hfirst : methodMarks s₁ t₁ c₁ = ((methodFacts s₂ t₂ c₂).map (·.name)).map (·, true) := by
    rw [methodMarks_eq h.bound₁ h.plain, h.inside, hnames, Bool.true_or]
  have hsecond : methodMarks s₂ t₂ c₂ =
      ((methodFacts s₂ t₂ c₂).map (·.name)).map (·, decide (name ∈ classesIn s₂ t₂)) := by
    rw [methodMarks_eq h.bound₂ h.plain, h.outside, Bool.false_or]
    simp [mem_listedIn.2 h.listed]
  rw [hfirst, hsecond]
  by_cases hclass : name ∈ classesIn s₂ t₂
  · simp [hclass]
  · cases methodFacts s₂ t₂ c₂ with
    | nil => simp
    | cons f fs => simp [hclass]

/-- Exported where it stands and by a list, a class that is declared has its methods told with the
same marks. One that is the value of a variable has so exactly if it has no methods to tell of, or
another class of its name is declared in the file with the list. -/
theorem export_forms_agree_iff (h : InTwoForms s₁ s₂ t₁ t₂ c₁ c₂ name) :
    (∀ f ∈ methodFacts s₁ t₁ c₁, f ∈ (surveyTree s₁ t₁).facts) ∧
    (∀ f ∈ methodFacts s₂ t₂ c₂, f ∈ (surveyTree s₂ t₂).facts) ∧
    (isDeclaredClass c₂.node.kind = true → methodMarks s₁ t₁ c₁ = methodMarks s₂ t₂ c₂) ∧
    (methodMarks s₁ t₁ c₁ = methodMarks s₂ t₂ c₂ ↔ methodMarks s₂ t₂ c₂ = [] ∨
      ∃ c ∈ walk t₂, ∃ g ∈ factsAt s₂ t₂ c, g.kind = .class_ ∧ g.name = name) := by
  refine ⟨fun f => mem_facts_of_mem_methodFacts h.mem₁, fun f => mem_facts_of_mem_methodFacts h.mem₂,
    fun hdeclared => ?_, ?_⟩
  · exact h.marks_eq_iff.2 (.inr (mem_classesIn_of_declared h.mem₂ h.bound₂ hdeclared))
  · rw [h.marks_eq_iff, mem_classesIn]

end Forms

namespace Forms

def source (text : String) : Source := ⟨text.toList.toArray, true⟩

def tree (text : String) : Tree := parse false text.toList

def inlineDeclared : String := "export class C \x7b m() \x7b\x7d #n() \x7b\x7d \x7d\n"

/-- The class is listed before it is declared. -/
def listedDeclared : String :=
  "export \x7b C as D \x7d;\nclass C \x7b m() \x7b\x7d #n() \x7b\x7d \x7d\n"

def inlineValue : String := "export const C = class \x7b m() \x7b\x7d \x7d;\n"

def listedValue : String := "const C = class \x7b m() \x7b\x7d \x7d;\nexport \x7b C \x7d;\n"

/-- The places of two texts at which a class stands in two forms, of the given kind and with the
given marks. -/
theorem exists_inTwoForms {first second name : String} {kind : Kind} {marks₁ marks₂ : List (String × Bool)}
    (hplain : '.' ∉ name.toList)
    (h : ∃ c₁ ∈ walk (tree first), ∃ c₂ ∈ walk (tree second), c₂.node.kind = kind ∧
      boundName? (source first) c₁ = some name ∧ boundName? (source second) c₂ = some name ∧
      alike (source first) (source second) c₁.node c₂.node = true ∧
      c₁.isInside .exportStatement = true ∧ c₂.isInside .exportStatement = false ∧
      methodMarks (source first) (tree first) c₁ = marks₁ ∧
      methodMarks (source second) (tree second) c₂ = marks₂)
    (hlisted : name ∈ listedIn (source second) (tree second)) :
    ∃ c₁ c₂, c₂.node.kind = kind ∧
      InTwoForms (source first) (source second) (tree first) (tree second) c₁ c₂ name ∧
      methodMarks (source first) (tree first) c₁ = marks₁ ∧
      methodMarks (source second) (tree second) c₂ = marks₂ := by
  obtain ⟨c₁, hc₁, c₂, hc₂, hkind, hbound₁, hbound₂, halike, hinside, houtside, hmarks⟩ := h
  exact ⟨c₁, c₂, hkind, ⟨hc₁, hc₂, hbound₁, hbound₂, hplain, halike, hinside, houtside,
    mem_listedIn.1 hlisted⟩, hmarks⟩

end Forms

open Forms

/-- Both methods are exported in both forms. -/
theorem export_forms_agree_of_declared : ∃ c₁ c₂, c₂.node.kind = .classDeclaration ∧
    InTwoForms (source inlineDeclared) (source listedDeclared) (tree inlineDeclared)
      (tree listedDeclared) c₁ c₂ "C" ∧
    methodMarks (source inlineDeclared) (tree inlineDeclared) c₁ = [("C.m", true), ("C.#n", true)] ∧
    methodMarks (source inlineDeclared) (tree inlineDeclared) c₁ =
      methodMarks (source listedDeclared) (tree listedDeclared) c₂ := by
  have hexists : ∃ c₁ c₂, c₂.node.kind = .classDeclaration ∧
      InTwoForms (source inlineDeclared) (source listedDeclared) (tree inlineDeclared)
        (tree listedDeclared) c₁ c₂ "C" ∧
      methodMarks (source inlineDeclared) (tree inlineDeclared) c₁ =
        [("C.m", true), ("C.#n", true)] ∧
      methodMarks (source listedDeclared) (tree listedDeclared) c₂ =
        [("C.m", true), ("C.#n", true)] :=
    exists_inTwoForms (by decide) (by decide +kernel) (by decide +kernel)
  obtain ⟨c₁, c₂, hkind, hforms, hmarks, -⟩ := hexists
  have hdeclared : isDeclaredClass c₂.node.kind = true := by rw [hkind]; rfl
  exact ⟨c₁, c₂, hkind, hforms, hmarks, (export_forms_agree_iff hforms).2.2.1 hdeclared⟩

/-- The method of a class that is the value of a variable is exported in the one form alone. -/
theorem export_forms_differ_of_value : ∃ c₁ c₂, c₂.node.kind = .classExpression ∧
    InTwoForms (source inlineValue) (source listedValue) (tree inlineValue) (tree listedValue)
      c₁ c₂ "C" ∧
    methodMarks (source inlineValue) (tree inlineValue) c₁ = [("C.m", true)] ∧
    methodMarks (source listedValue) (tree listedValue) c₂ = [("C.m", false)] :=
  exists_inTwoForms (by decide) (by decide +kernel) (by decide +kernel)

end CodeSurvey.TypeScript
