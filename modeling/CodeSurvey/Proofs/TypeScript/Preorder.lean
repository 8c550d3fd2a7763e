-- The loop of the walk over a syntax tree, with the places that wait on a stack and what has been
-- found so far. It visits the tree in pre-order, as the recursion over the tree does: each node
-- once, and a node before all below it.
import CodeSurvey.Proofs.Survey.Facts
import CodeSurvey.Proofs.TypeScript.Walk
import CodeSurvey.TypeScript.Scan
import Mathlib.Data.List.Nodup

namespace CodeSurvey.TypeScript

namespace Place

/-! ## The recursion -/

mutual

/-- The places of a tree below the given steps: its own, then those of its children from left to
right. -/
def preorderBelow (above : List Step) : Tree → List Place
  | .node k f n s cs =>
    ⟨.node k f n s cs, above⟩ :: preorderBelowAll above (.node k f n s cs) [] cs

/-- The places of the children from the given ones on. -/
def preorderBelowAll (above : List Step) (parent : Tree) (earlier : List Tree) :
    List Tree → List Place
  | [] => []
  | c :: cs =>
    preorderBelow (⟨parent, earlier⟩ :: above) c ++ preorderBelowAll above parent (c :: earlier) cs

end

/-- The places of a tree in pre-order. -/
def preorder (t : Tree) : List Place := preorderBelow [] t

theorem preorderBelowAll_eq (p : Place) (cs earlier : List Tree) :
    preorderBelowAll p.above p.node earlier cs =
      (p.childrenFrom earlier cs).flatMap fun c => preorderBelow c.above c.node := by
  induction cs generalizing earlier with
  | nil => rfl
  | cons c cs ih => rw [preorderBelowAll, childrenFrom, List.flatMap_cons, ih]

theorem preorderBelow_eq (p : Place) : preorderBelow p.above p.node =
    p :: p.children.flatMap fun c => preorderBelow c.above c.node := by
  obtain ⟨⟨k, f, n, s, cs⟩, above⟩ := p
  rw [preorderBelow]
  exact congrArg _ (preorderBelowAll_eq ⟨.node k f n s cs, above⟩ cs [])

theorem within_eq_preorderBelow (p : Place) : p.within = preorderBelow p.above p.node := by
  induction hsize : p.node.size using Nat.strongRecOn generalizing p with
  | ind _ ih =>
    rw [within_eq, preorderBelow_eq]
    refine congrArg _ (List.flatMap_congr fun c hc => ?_)
    exact ih _ (hsize ▸ size_lt_of_mem_children hc) c rfl

theorem walk_eq_preorder (t : Tree) : walk t = preorder t := by
  rw [walk_eq, within_eq_preorderBelow]
  rfl

/-! ## Each node once -/

theorem length_flatMap_within (ps : List Place)
    (h : ∀ p ∈ ps, p.within.length = p.node.size) :
    (ps.flatMap within).length = weight ps := by
  induction ps with
  | nil => rfl
  | cons p ps ih =>
    rw [List.flatMap_cons, List.length_append, h p List.mem_cons_self,
      ih fun q hq => h q (List.mem_cons_of_mem p hq)]
    rfl

theorem length_within (p : Place) : p.within.length = p.node.size := by
  induction hsize : p.node.size using Nat.strongRecOn generalizing p with
  | ind _ ih =>
    have hchildren : ∀ c ∈ p.children, c.within.length = c.node.size := fun c hc =>
      ih _ (hsize ▸ size_lt_of_mem_children hc) c rfl
    rw [within_eq, List.length_cons, length_flatMap_within _ hchildren, weight, children,
      map_node_childrenFrom, ← hsize, p.node.size_eq]

theorem length_preorder (t : Tree) : (preorder t).length = t.size := by
  rw [← walk_eq_preorder, walk_eq, length_within]
  rfl

/-- What is below a place has all steps of the place above it. -/
theorem Reaches.suffix {p q : Place} (h : Reaches p q) : p.above <:+ q.above := by
  induction h with
  | here => exact List.suffix_rfl
  | child _ hc ih =>
    obtain ⟨-, e, habove⟩ := mem_childrenFrom hc
    rw [habove]
    exact ih.trans (List.suffix_cons _ _)

/-- Of two children, the earlier one has fewer before it. -/
theorem pairwise_childrenFrom (p : Place) (cs earlier : List Tree) :
    (p.childrenFrom earlier cs).Pairwise fun c d => ∃ e e', e.length < e'.length ∧
      c.above = ⟨p.node, e⟩ :: p.above ∧ d.above = ⟨p.node, e'⟩ :: p.above := by
  -- All places from here on have at least the earlier ones before them.
  have hlater : ∀ {cs earlier : List Tree}, ∀ d ∈ p.childrenFrom earlier cs,
      ∃ e, earlier.length ≤ e.length ∧ d.above = ⟨p.node, e⟩ :: p.above := by
    intro cs
    induction cs with
    | nil => intro earlier d hd; cases hd
    | cons c cs ih =>
      intro earlier d hd
      rcases List.mem_cons.1 hd with rfl | hd
      · exact ⟨earlier, Nat.le_refl _, rfl⟩
      · obtain ⟨e, hle, habove⟩ := ih d hd
        exact ⟨e, Nat.le_of_succ_le hle, habove⟩
  induction cs generalizing earlier with
  | nil => exact .nil
  | cons c cs ih =>
    refine .cons (fun d hd => ?_) (ih _)
    obtain ⟨e, hle, habove⟩ := hlater d hd
    exact ⟨earlier, e, hle, rfl, habove⟩

theorem nodup_within (p : Place) : p.within.Nodup := by
  induction hsize : p.node.size using Nat.strongRecOn generalizing p with
  | ind _ ih =>
    rw [within_eq, List.nodup_cons, List.nodup_flatMap]
    refine ⟨?_, fun c hc => ih _ (hsize ▸ size_lt_of_mem_children hc) c rfl, ?_⟩
    · -- A place below has more above it.
      intro hp
      obtain ⟨c, hc, hp⟩ := List.mem_flatMap.1 hp
      obtain ⟨-, e, habove⟩ := mem_childrenFrom hc
      have hle := (mem_within_iff.1 hp).suffix.length_le
      rw [habove, List.length_cons] at hle
      omega
    · -- What is below two children would have the steps of both above it.
      refine (pairwise_childrenFrom p p.node.children []).imp ?_
      rintro c d ⟨e, e', hlt, hc, hd⟩ q hqc hqd
      have hsame : c.above = d.above := by
        have hlength : c.above.length = d.above.length := by rw [hc, hd]; rfl
        exact (List.suffix_of_suffix_length_le (mem_within_iff.1 hqc).suffix
          (mem_within_iff.1 hqd).suffix (Nat.le_of_eq hlength)).eq_of_length hlength
      rw [hc, hd] at hsame
      have heq : e = e' := (Step.mk.inj (List.cons.inj hsame).1).2
      rw [heq] at hlt
      exact Nat.lt_irrefl _ hlt

theorem nodup_preorder (t : Tree) : (preorder t).Nodup := by
  rw [← walk_eq_preorder, walk_eq]
  exact nodup_within _

theorem mem_preorder_iff {t : Tree} {p : Place} : p ∈ preorder t ↔ Reaches (root t) p := by
  rw [← walk_eq_preorder, mem_walk_iff]

/-! ## From above to below -/

/-- All below a place comes in one stretch, the place first. -/
theorem Reaches.stretch {p q : Place} (h : Reaches p q) : q.within <:+: p.within := by
  induction h with
  | here => exact List.infix_rfl
  | child _ hc ih =>
    rename_i q c _
    have hchild : c.within <:+: q.children.flatMap within :=
      List.infix_of_mem_flatten (List.mem_map_of_mem hc)
    rw [within_eq q] at ih
    exact (hchild.trans (List.suffix_cons _ _).isInfix).trans ih

theorem walk_of_reaches {t : Tree} {p q : Place} (hp : p ∈ walk t) (h : Reaches p q)
    (hne : q ≠ p) : ∃ before between after,
      walk t = before ++ [p] ++ between ++ [q] ++ after := by
  have hbelow : q ∈ p.children.flatMap within := by
    have hq := mem_within_iff.2 h
    rw [within_eq] at hq
    exact (List.mem_cons.1 hq).resolve_left hne
  obtain ⟨between, rest, hsplit⟩ := List.append_of_mem hbelow
  obtain ⟨before, after, hwalk⟩ := (mem_walk_iff.1 hp).stretch
  rw [walk_eq, ← hwalk, within_eq p, hsplit]
  exact ⟨before, between, rest ++ after, by simp⟩

end Place

/-! ## The loop -/

/-- How far a walk is: what it has found, the names that are listed, the places that it has
visited, and those that wait, with the next one last. -/
structure Walking where
  found : FileFacts
  listed : List String
  visited : List Place
  waiting : List Place

namespace Walking

open Place

/-- Nothing is found yet, and the root waits. -/
def start (t : Tree) : Walking := ⟨FileFacts.nothing, [], [], [root t]⟩

/-- The last place is taken off the waiting ones and visited, and its children are put on from the
last to the first; none when no place waits. -/
def turn? (s : Source) (w : Walking) : Option Walking :=
  w.waiting.getLast?.map fun p =>
    { found := w.found ++ pieceAt s p
      listed := w.listed ++ localExportsOf s p.node
      visited := w.visited ++ [p]
      waiting := w.waiting.dropLast ++ p.children.reverse }

/-- The walk after as many turns; none when it stops before. -/
def after? (s : Source) (w : Walking) : Nat → Option Walking
  | 0 => some w
  | n + 1 => (w.after? s n).bind (turn? s)

/-- What the walk tells at its end, with the exports that the listed names add. -/
def result (w : Walking) : FileFacts :=
  let classes := (w.found.facts.filter (fun f => f.kind == .class_)).map (·.name)
  { w.found with facts := w.found.facts.map (exportListed w.listed classes) }

/-- The places that the walk has still to visit, in order. -/
def pending (w : Walking) : List Place := w.waiting.reverse.flatMap within

/-- The visited places and then the pending ones are those of the tree in pre-order, and what has
been found is what the visited ones give. -/
structure Follows (s : Source) (t : Tree) (w : Walking) : Prop where
  order : w.visited ++ w.pending = preorder t
  found : w.found = FileFacts.concat (w.visited.map (pieceAt s))
  listed : w.listed = w.visited.flatMap fun p => localExportsOf s p.node

variable {s : Source} {t : Tree} {w w' : Walking}

theorem follows_start (s : Source) (t : Tree) : Follows s t (start t) where
  order := by
    rw [← walk_eq_preorder, walk_eq]
    simp [start, pending]
  found := rfl
  listed := rfl

/-- A turn moves the first pending place to the visited ones: its children, put on from the last to
the first, are pending in their order. -/
theorem Follows.turn (h : Follows s t w) (hturn : w.turn? s = some w') :
    Follows s t w' ∧ w'.visited.length = w.visited.length + 1 := by
  obtain ⟨p, hlast, rfl⟩ := Option.map_eq_some_iff.1 hturn
  obtain ⟨rest, hwaiting⟩ := List.getLast?_eq_some_iff.1 hlast
  refine ⟨⟨?_, ?_, ?_⟩, List.length_append⟩
  · rw [← h.order]
    simp only [pending, hwaiting, List.dropLast_concat, List.reverse_append, List.reverse_reverse,
      List.flatMap_append, List.reverse_cons, List.reverse_nil, List.nil_append,
      List.flatMap_cons, within_eq p, List.append_assoc, List.cons_append]
  · have hone : FileFacts.concat [pieceAt s p] = pieceAt s p := by
      simp [FileFacts.concat, Features.none_or]
    rw [List.map_append, FileFacts.concat_append, ← h.found, List.map_singleton, hone]
  · rw [List.flatMap_append, ← h.listed, List.flatMap_singleton]

/-- A turn is made as long as something is pending. -/
theorem turn?_eq_none_iff : w.turn? s = none ↔ w.pending = [] := by
  rw [turn?, Option.map_eq_none_iff, List.getLast?_eq_none_iff, pending]
  constructor
  · intro h
    rw [h]
    rfl
  · intro h
    rw [List.flatMap_eq_nil_iff] at h
    refine List.eq_nil_iff_forall_not_mem.2 fun p hp => ?_
    have hnil := h p (List.mem_reverse.2 hp)
    rw [within_eq] at hnil
    cases hnil

/-- As many turns are made as the tree has nodes. -/
theorem exists_after? (s : Source) (t : Tree) {n : Nat} (hn : n ≤ t.size) :
    ∃ w, (start t).after? s n = some w ∧ Follows s t w ∧ w.visited.length = n := by
  induction n with
  | zero => exact ⟨start t, rfl, follows_start s t, rfl⟩
  | succ n ih =>
    obtain ⟨w, hafter, hfollows, hlength⟩ := ih (Nat.le_of_succ_le hn)
    cases hturn : w.turn? s with
    | none =>
      have horder := congrArg List.length hfollows.order
      rw [turn?_eq_none_iff.1 hturn, List.append_nil, length_preorder] at horder
      omega
    | some w' =>
      obtain ⟨hfollows', hlength'⟩ := hfollows.turn hturn
      refine ⟨w', ?_, hfollows', by rw [hlength', hlength]⟩
      rw [after?, hafter]
      exact hturn

/-- The loop stops after one turn for each node of the tree; it has visited these in pre-order, and
its result is the survey. -/
theorem stops (s : Source) (t : Tree) : ∃ w, (start t).after? s t.size = some w ∧
    w.turn? s = none ∧ w.visited = preorder t ∧ w.result = surveyTree s t := by
  obtain ⟨w, hafter, hfollows, hlength⟩ := exists_after? s t (Nat.le_refl _)
  have hpending : w.pending = [] := by
    have horder := congrArg List.length hfollows.order
    rw [List.length_append, length_preorder, hlength] at horder
    exact List.length_eq_zero_iff.1 (by omega)
  have hvisited : w.visited = preorder t := by
    rw [← hfollows.order, hpending, List.append_nil]
  refine ⟨w, hafter, turn?_eq_none_iff.2 hpending, hvisited, ?_⟩
  unfold result surveyTree surveyPlaces
  rw [hfollows.found, hfollows.listed, hvisited, walk_eq_preorder]

end Walking

end CodeSurvey.TypeScript
