-- The order in which the survey of a syntax tree tells of what it finds: that of the tree in
-- pre-order. What a node tells comes before what the nodes below it tell, a class so before its
-- methods; and where the nodes of the tree stand one behind the other, the line numbers never fall.
import CodeSurvey.Proofs.TypeScript.Exported
import CodeSurvey.Proofs.TypeScript.Preorder

namespace CodeSurvey.TypeScript

open Place

/-! ## Outside before inside -/

/-- In the last list the first one comes before the second. -/
def ComesBefore {α : Type} (first second all : List α) : Prop :=
  ∃ before between after, all = before ++ first ++ between ++ second ++ after

theorem ComesBefore.flatMap {α β : Type} {a b : α} {l : List α} (h : ComesBefore [a] [b] l)
    (f : α → List β) : ComesBefore (f a) (f b) (l.flatMap f) := by
  obtain ⟨before, between, after, rfl⟩ := h
  exact ⟨before.flatMap f, between.flatMap f, after.flatMap f, by simp⟩

/-- What a place tells comes before what the places below it tell. -/
theorem comesBefore_of_reaches (s : Source) {t : Tree} {p q : Place} (hp : p ∈ walk t)
    (h : Reaches p q) (hne : q ≠ p) :
    ComesBefore (factsAt s t p) (factsAt s t q) (surveyTree s t).facts := by
  rw [facts_surveyTree]
  exact ComesBefore.flatMap (walk_of_reaches hp h hne) _

theorem IsMethodOf.reaches {t : Tree} {p c : Place} (h : IsMethodOf p c) (hp : p ∈ walk t) :
    Reaches c p ∧ p ≠ c := by
  obtain ⟨body, e₁, e₂, -, habove⟩ := h.above
  obtain ⟨hbody, hmethod⟩ := mem_children_above hp habove
  obtain ⟨-, hchild⟩ := mem_children_above hbody rfl
  refine ⟨.child (.child .here hchild) hmethod, ?_⟩
  rintro rfl
  have hlength := congrArg List.length habove
  rw [List.length_cons, List.length_cons] at hlength
  omega

/-! ## The lines of a node -/

/-- Whatever is found begins on the line. -/
structure BeginsOn (line : UInt32) (found : FileFacts) : Prop where
  facts : ∀ f ∈ found.facts, f.startLine = line
  imports : ∀ i ∈ found.imports, i.line = line
  exports : ∀ e ∈ found.exports, e.line = line

section Lines

variable {line : UInt32} {s : Source}

theorem beginsOn_featurePiece (f : Features) : BeginsOn line (featurePiece f) :=
  ⟨List.forall_mem_nil _, List.forall_mem_nil _, List.forall_mem_nil _⟩

theorem beginsOn_nothing : BeginsOn line FileFacts.nothing := beginsOn_featurePiece Features.none

theorem beginsOn_importPiece {i : Import} (h : i.line = line) : BeginsOn line (importPiece i) :=
  ⟨List.forall_mem_nil _, List.forall_mem_singleton.2 h, List.forall_mem_nil _⟩

theorem beginsOn_exportPiece {es : List Export} (h : ∀ e ∈ es, e.line = line) :
    BeginsOn line (exportPiece es) :=
  ⟨List.forall_mem_nil _, List.forall_mem_nil _, h⟩

theorem beginsOn_factPiece {f : Fact} (h : f.startLine = line) : BeginsOn line (factPiece f) :=
  ⟨List.forall_mem_singleton.2 h, List.forall_mem_nil _, List.forall_mem_nil _⟩

theorem beginsOn_named? {t : Tree} {f : String → FileFacts} (h : ∀ name, BeginsOn line (f name)) :
    BeginsOn line (named? s t f) := by
  unfold named?
  cases t.child? .name with
  | none => exact beginsOn_nothing
  | some n => exact h _

theorem line_takePart (s : Source) (i : Import) (part : Tree) : (takePart s i part).line = i.line := by
  unfold takePart
  split <;> rfl

theorem line_foldl_takePart (s : Source) (parts : List Tree) (i : Import) :
    (parts.foldl (takePart s) i).line = i.line := by
  induction parts generalizing i with
  | nil => rfl
  | cons part parts ih => rw [List.foldl_cons, ih, line_takePart]

theorem beginsOn_importOf (s : Source) (t : Tree) : BeginsOn t.startLine (importOf s t) := by
  unfold importOf
  split
  · exact beginsOn_nothing
  · exact beginsOn_importPiece (line_foldl_takePart ..)

theorem beginsOn_callImportOf (s : Source) (t : Tree) : BeginsOn t.startLine (callImportOf s t) := by
  unfold callImportOf
  split
  · exact beginsOn_nothing
  · dsimp only
    split
    · split
      · exact beginsOn_importPiece rfl
      · exact beginsOn_nothing
    · exact beginsOn_nothing

theorem beginsOn_exportOf (s : Source) (t : Tree) : BeginsOn t.startLine (exportOf s t) := by
  have hone : ∀ e : Export, e.line = t.startLine → BeginsOn t.startLine (exportPiece [e]) :=
    fun e he => beginsOn_exportPiece (List.forall_mem_singleton.2 he)
  have hmap : ∀ {α : Type} (l : List α) (f : α → Export), (∀ a, (f a).line = t.startLine) →
      BeginsOn t.startLine (exportPiece (l.map f)) := by
    intro α l f hf
    refine beginsOn_exportPiece fun e he => ?_
    obtain ⟨a, -, rfl⟩ := List.mem_map.1 he
    exact hf a
  unfold exportOf
  dsimp only
  split
  · exact hone _ rfl
  · split
    · exact hmap _ _ fun _ => rfl
    · split
      · exact hmap _ _ fun _ => rfl
      · split
        · exact hone _ rfl
        · split
          · exact hone _ rfl
          · exact beginsOn_nothing

theorem beginsOn_functionValueOf (s : Source) (p : Place) :
    BeginsOn p.node.startLine (functionValueOf s p) := by
  unfold functionValueOf
  split
  · exact beginsOn_factPiece rfl
  · exact beginsOn_nothing

theorem beginsOn_methodOf (s : Source) (p : Place) : BeginsOn p.node.startLine (methodOf s p) := by
  unfold methodOf
  split
  · exact beginsOn_nothing
  · exact beginsOn_named? fun _ => beginsOn_factPiece rfl

/-- Whatever a node tells has the line on which the node begins. -/
theorem beginsOn_pieceAt (s : Source) (p : Place) : BeginsOn p.node.startLine (pieceAt s p) := by
  unfold pieceAt
  split
  · exact beginsOn_importOf s p.node
  · exact beginsOn_exportOf s p.node
  · exact beginsOn_callImportOf s p.node
  · exact beginsOn_named? fun _ => beginsOn_factPiece rfl
  · exact beginsOn_named? fun _ => beginsOn_factPiece rfl
  · exact beginsOn_functionValueOf s p
  · exact beginsOn_named? fun _ => beginsOn_factPiece rfl
  · exact beginsOn_named? fun _ => beginsOn_factPiece rfl
  · exact beginsOn_methodOf s p
  · exact beginsOn_named? fun _ => beginsOn_factPiece rfl
  · exact beginsOn_named? fun _ => beginsOn_factPiece rfl
  all_goals exact beginsOn_featurePiece _

end Lines

/-! ## Trees over a text -/

/-- A mark is not before another one, neither by characters nor by lines. -/
instance : LE Mark := ⟨fun a b => a.offset ≤ b.offset ∧ a.row ≤ b.row⟩

instance (a b : Mark) : Decidable (a ≤ b) :=
  inferInstanceAs (Decidable (a.offset ≤ b.offset ∧ a.row ≤ b.row))

theorem Mark.le_refl (a : Mark) : a ≤ a := ⟨Nat.le_refl _, Nat.le_refl _⟩

theorem Mark.le_trans {a b c : Mark} (hab : a ≤ b) (hbc : b ≤ c) : a ≤ c :=
  ⟨Nat.le_trans hab.1 hbc.1, Nat.le_trans hab.2 hbc.2⟩

/-- The children of the node stand inside it in order, each behind the end of the one before. What
builds the trees, tree-sitter, puts the nodes of a text one behind the other, so that no two
children of a node share a character. -/
structure IsLaidOut (t : Tree) : Prop where
  forward : t.span.start ≤ t.span.stop
  inside : ∀ c ∈ t.children, t.span.start ≤ c.span.start ∧ c.span.stop ≤ t.span.stop
  ordered : t.children.Pairwise fun a b => a.span.stop ≤ b.span.start

instance (t : Tree) : Decidable (IsLaidOut t) :=
  decidable_of_iff (t.span.start ≤ t.span.stop ∧
      (∀ c ∈ t.children, t.span.start ≤ c.span.start ∧ c.span.stop ≤ t.span.stop) ∧
      t.children.Pairwise fun a b => a.span.stop ≤ b.span.start)
    ⟨fun h => ⟨h.1, h.2.1, h.2.2⟩, fun h => ⟨h.1, h.2, h.3⟩⟩

section Layout

variable {p q : Place} {t : Tree}

theorem inside_of_reaches (hlaid : ∀ q ∈ p.within, IsLaidOut q.node) (h : Reaches p q) :
    p.node.span.start ≤ q.node.span.start ∧ q.node.span.stop ≤ p.node.span.stop := by
  induction h with
  | here => exact ⟨Mark.le_refl _, Mark.le_refl _⟩
  | child hq hc ih =>
    obtain ⟨hstart, hstop⟩ := (hlaid _ (mem_within_iff.2 hq)).inside _ (mem_childrenFrom hc).1
    exact ⟨Mark.le_trans ih.1 hstart, Mark.le_trans hstop ih.2⟩

/-- In pre-order the nodes begin one after the other: those below one child end before the next
child begins. -/
theorem pairwise_start_within (hlaid : ∀ q ∈ p.within, IsLaidOut q.node) :
    p.within.Pairwise fun a b => a.node.span.start ≤ b.node.span.start := by
  induction hsize : p.node.size using Nat.strongRecOn generalizing p with
  | ind _ ih =>
    have hbelow : ∀ c ∈ p.children, ∀ q ∈ c.within, IsLaidOut q.node := fun c hc q hq =>
      hlaid q (mem_within_iff.2 (.of_child hc (mem_within_iff.1 hq)))
    rw [within_eq, List.pairwise_cons, List.pairwise_flatMap]
    refine ⟨?_, fun c hc => ih _ (hsize ▸ size_lt_of_mem_children hc) (hbelow c hc) rfl, ?_⟩
    · intro q hq
      obtain ⟨c, hc, hq⟩ := List.mem_flatMap.1 hq
      exact (inside_of_reaches hlaid (.of_child hc (mem_within_iff.1 hq))).1
    · have hordered : p.children.Pairwise fun c d => c.node.span.stop ≤ d.node.span.start := by
        have hnodes := (hlaid p (mem_within_iff.2 .here)).ordered
        rwa [← map_node_childrenFrom p p.node.children [], List.pairwise_map] at hnodes
      refine hordered.imp_of_mem fun {c d} hc hd hcd a ha b hb => ?_
      have haforward : a.node.span.start ≤ a.node.span.stop := (hbelow c hc a ha).forward
      have hainside := (inside_of_reaches (hbelow c hc) (mem_within_iff.1 ha)).2
      have hbinside := (inside_of_reaches (hbelow d hd) (mem_within_iff.1 hb)).1
      exact Mark.le_trans haforward (Mark.le_trans hainside (Mark.le_trans hcd hbinside))

/-- So do the lines, when these can be numbered. -/
theorem pairwise_startLine_walk (hlaid : ∀ q ∈ walk t, IsLaidOut q.node)
    (hrows : t.span.stop.row + 1 < UInt32.size) :
    (walk t).Pairwise fun a b => a.node.startLine ≤ b.node.startLine := by
  rw [walk_eq] at hlaid ⊢
  have hfits : ∀ q ∈ (root t).within, q.node.span.start.row + 1 < UInt32.size := by
    intro q hq
    have hinside := (inside_of_reaches hlaid (mem_within_iff.1 hq)).2
    have hrow := (Mark.le_trans (hlaid q hq).forward hinside).2
    exact Nat.lt_of_le_of_lt (Nat.succ_le_succ hrow) hrows
  refine (pairwise_start_within hlaid).imp_of_mem fun {a b} ha hb hab => ?_
  rw [UInt32.le_iff_toNat_le, Tree.startLine, Tree.startLine,
    UInt32.toNat_ofNat_of_lt' (hfits a ha), UInt32.toNat_ofNat_of_lt' (hfits b hb)]
  exact Nat.succ_le_succ hab.2

end Layout

/-! ## The order of the survey -/

/-- In each list no line number is below an earlier one. -/
structure InLineOrder (found : FileFacts) : Prop where
  facts : found.facts.Pairwise fun a b => a.startLine ≤ b.startLine
  imports : found.imports.Pairwise fun a b => a.line ≤ b.line
  exports : found.exports.Pairwise fun a b => a.line ≤ b.line

theorem pairwise_line_flatMap {α : Type} {ps : List Place} {f : Place → List α} {line : α → UInt32}
    (hps : ps.Pairwise fun p q => p.node.startLine ≤ q.node.startLine)
    (hf : ∀ p, ∀ a ∈ f p, line a = p.node.startLine) :
    (ps.flatMap f).Pairwise fun a b => line a ≤ line b := by
  refine List.pairwise_flatMap.2 ⟨fun p _ => ?_, hps.imp fun hpq a ha b hb => ?_⟩
  · refine List.pairwise_of_forall_mem_list fun a ha b hb => ?_
    rw [hf p a ha, hf p b hb]
    exact UInt32.le_refl _
  · rwa [hf _ a ha, hf _ b hb]

theorem inLineOrder_surveyTree (s : Source) {t : Tree} (hlaid : ∀ q ∈ walk t, IsLaidOut q.node)
    (hrows : t.span.stop.row + 1 < UInt32.size) : InLineOrder (surveyTree s t) := by
  have hwalk := pairwise_startLine_walk hlaid hrows
  refine ⟨?_, ?_, ?_⟩
  · rw [facts_surveyTree]
    refine pairwise_line_flatMap hwalk fun p f hf => ?_
    obtain ⟨g, hg, rfl⟩ := List.mem_map.1 hf
    rw [← (beginsOn_pieceAt s p).facts g hg]
    unfold exportListed
    dsimp only
    split <;> rfl
  · change (((walk t).map (pieceAt s)).flatMap (·.imports)).Pairwise _
    rw [List.flatMap_map]
    exact pairwise_line_flatMap hwalk fun p => (beginsOn_pieceAt s p).imports
  · change (((walk t).map (pieceAt s)).flatMap (·.exports)).Pairwise _
    rw [List.flatMap_map]
    exact pairwise_line_flatMap hwalk fun p => (beginsOn_pieceAt s p).exports

/-- The loop of the walk stops after one turn for each node of the tree. It has then visited these
in pre-order, each once, and its result is the survey. So what a node tells comes before what the
nodes below it tell, and a declared class before its methods. If the nodes are laid out one behind
the other, as those of a text are, and their lines can be numbered, then facts, imports and exports
each come in the order of their lines. -/
theorem walk_is_preorder (s : Source) (t : Tree) :
    (∃ w, (Walking.start t).after? s t.size = some w ∧ w.turn? s = none ∧
      w.visited = preorder t ∧ w.result = surveyTree s t) ∧
    walk t = preorder t ∧ (preorder t).Nodup ∧ (∀ p, p ∈ preorder t ↔ Reaches (root t) p) ∧
    (∀ p ∈ preorder t, ∀ q, Reaches p q → q ≠ p →
      ComesBefore (factsAt s t p) (factsAt s t q) (surveyTree s t).facts) ∧
    (∀ p ∈ preorder t, ∀ c n, IsMethodOf p c → c.node.child? .name = some n →
      ∃ g, factsAt s t c = [g] ∧ g.kind = .class_ ∧ g.name = s.nameOf n ∧
        ComesBefore [g] (factsAt s t p) (surveyTree s t).facts) ∧
    ((∀ p ∈ preorder t, IsLaidOut p.node) → t.span.stop.row + 1 < UInt32.size →
      InLineOrder (surveyTree s t)) := by
  refine ⟨Walking.stops s t, walk_eq_preorder t, nodup_preorder t, fun _ => mem_preorder_iff, ?_⟩
  rw [← walk_eq_preorder]
  refine ⟨fun p hp q => comesBefore_of_reaches s hp, ?_, inLineOrder_surveyTree s⟩
  intro p hp c n hmethod hn
  obtain ⟨g, hg, hclass, hname⟩ := hmethod.factsAt_class (s := s) (t := t) hn
  obtain ⟨hreaches, hne⟩ := hmethod.reaches hp
  refine ⟨g, hg, hclass, hname, ?_⟩
  rw [← hg]
  exact comesBefore_of_reaches s (hmethod.mem_walk hp) hreaches hne

namespace Overlapping

/-- An interface with an empty name, on one line. -/
def interface (row : Nat) : Tree :=
  let span : Span := ⟨⟨row, row⟩, ⟨row, row⟩⟩
  .node .interfaceDeclaration none true span [.node .identifier (some .name) true span []]

/-- Two children that begin in order inside their parent; but the first reaches behind the beginning
of the second. -/
def tree : Tree :=
  let span : Span := ⟨⟨0, 0⟩, ⟨2, 2⟩⟩
  .node (.other "program") none true span
    [.node (.other "statement_block") none true span [interface 2], interface 1]

end Overlapping

example : (surveyTree ⟨#[], true⟩ Overlapping.tree).facts.map (·.startLine) = [3, 2] := by
  decide +kernel

namespace Nested

/-- A class with a function in its method, between an import and a list of exports. -/
def text : String :=
  "import a from 'a';\nexport class A \x7b\n  m() \x7b\n    function g() \x7b\x7d\n  \x7d\n\x7d\n" ++
    "export \x7b a \x7d;\n"

def source : Source := ⟨text.toList.toArray, true⟩

def tree : Tree := parse false text.toList

end Nested

/-- The class comes before its method, and the method before the function in it. -/
theorem walk_is_preorder_of_nested :
    (∀ p ∈ preorder Nested.tree, IsLaidOut p.node) ∧
    Nested.tree.span.stop.row + 1 < UInt32.size ∧
    InLineOrder (surveyTree Nested.source Nested.tree) ∧
    (surveyTree Nested.source Nested.tree).facts.map (fun f => (f.name, f.startLine)) =
      [("A", 2), ("A.m", 3), ("g", 4)] ∧
    (surveyTree Nested.source Nested.tree).exports.map (fun e => (e.name, e.line)) =
      [("A", 2), ("a", 7)] := by
  have hfits : (∀ p ∈ preorder Nested.tree, IsLaidOut p.node) ∧
      Nested.tree.span.stop.row + 1 < UInt32.size := by decide +kernel
  have horder := (walk_is_preorder Nested.source Nested.tree).2.2.2.2.2.2 hfits.1 hfits.2
  exact ⟨hfits.1, hfits.2, horder, by decide +kernel⟩

end CodeSurvey.TypeScript
