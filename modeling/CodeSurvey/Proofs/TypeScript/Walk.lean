-- The walk over a syntax tree, told without its stack: a place comes before the places below
-- it, and those below one child before those below the next. It reaches the root and, with a
-- place, its children and nothing else.
import CodeSurvey.TypeScript.Tree

namespace CodeSurvey.TypeScript

namespace Place

/-! ## The walk without a stack -/

/-- A place and all below it, in the order of the walk. -/
def within (p : Place) : List Place := walkFrom [] [p]

theorem walkFrom_eq (visited stack : List Place) :
    walkFrom visited stack = visited.reverse ++ stack.flatMap within := by
  -- Both at once: what has been visited stays in front, and a stack is walked place by place.
  have hvisited : ∀ stack visited, walkFrom visited stack = visited.reverse ++ walkFrom [] stack := by
    intro stack
    induction hweight : weight stack using Nat.strongRecOn generalizing stack with
    | ind _ ih =>
      intro visited
      cases stack with
      | nil => simp [walkFrom]
      | cons p stack =>
        have ih := ih _ (hweight ▸ weight_children_lt p stack) _ rfl
        rw [walkFrom, walkFrom, ih, ih [p]]
        simp
  have happend : ∀ a b, walkFrom [] (a ++ b) = walkFrom [] a ++ walkFrom [] b := by
    intro a
    induction hweight : weight a using Nat.strongRecOn generalizing a with
    | ind _ ih =>
      intro b
      cases a with
      | nil => simp [walkFrom]
      | cons p a =>
        have ih := ih _ (hweight ▸ weight_children_lt p a) _ rfl
        rw [List.cons_append, walkFrom, walkFrom, hvisited _ [p], hvisited _ [p],
          ← List.append_assoc p.children, ih, List.append_assoc]
  rw [hvisited]
  congr 1
  induction stack with
  | nil => simp [walkFrom]
  | cons p stack ih =>
    rw [← List.singleton_append, happend, ih, List.flatMap_append, List.flatMap_singleton, within]

theorem within_eq (p : Place) : p.within = p :: p.children.flatMap within := by
  rw [within, walkFrom, walkFrom_eq, List.append_nil]
  rfl

theorem walk_eq (t : Tree) : walk t = (root t).within := by
  rw [walk, walkFrom_eq, List.flatMap_singleton]
  rfl

/-! ## What the walk reaches -/

/-- The second place is the first, or stands below it. -/
inductive Reaches (p : Place) : Place → Prop
  | here : Reaches p p
  | child {q c : Place} : Reaches p q → c ∈ q.children → Reaches p c

theorem Reaches.trans {p q r : Place} (hpq : Reaches p q) (hqr : Reaches q r) : Reaches p r := by
  induction hqr with
  | here => exact hpq
  | child _ hc ih => exact .child ih hc

theorem Reaches.of_child {p c q : Place} (hc : c ∈ p.children) (h : Reaches c q) : Reaches p q :=
  .trans (.child .here hc) h

theorem mem_childrenFrom {p c : Place} {cs earlier : List Tree} (h : c ∈ p.childrenFrom earlier cs) :
    c.node ∈ cs ∧ ∃ e, c.above = ⟨p.node, e⟩ :: p.above := by
  induction cs generalizing earlier with
  | nil => cases h
  | cons d cs ih =>
    rcases List.mem_cons.1 h with rfl | h
    · exact ⟨List.mem_cons_self, earlier, rfl⟩
    · exact ⟨List.mem_cons_of_mem d (ih h).1, (ih h).2⟩

theorem size_lt_of_mem_children {p c : Place} (h : c ∈ p.children) : c.node.size < p.node.size := by
  have hle : ∀ {t : Tree} {ts : List Tree}, t ∈ ts → t.size ≤ Tree.sizeAll ts := by
    intro t ts ht
    obtain ⟨a, b, rfl⟩ := List.append_of_mem ht
    rw [Tree.sizeAll_append, Tree.sizeAll]
    omega
  have := hle (mem_childrenFrom h).1
  rw [p.node.size_eq]
  omega

theorem mem_within_iff {p q : Place} : q ∈ p.within ↔ Reaches p q := by
  have hclosed : ∀ p : Place, ∀ q ∈ p.within, ∀ c ∈ q.children, c ∈ p.within := by
    intro p
    induction hsize : p.node.size using Nat.strongRecOn generalizing p with
    | ind _ ih =>
      intro q hq c hc
      rw [within_eq] at hq ⊢
      refine List.mem_cons_of_mem p (List.mem_flatMap.2 ?_)
      rcases List.mem_cons.1 hq with rfl | hq
      · exact ⟨c, hc, by rw [within_eq]; exact List.mem_cons_self⟩
      · obtain ⟨d, hd, hq⟩ := List.mem_flatMap.1 hq
        exact ⟨d, hd, ih _ (hsize ▸ size_lt_of_mem_children hd) d rfl q hq c hc⟩
  constructor
  · induction hsize : p.node.size using Nat.strongRecOn generalizing p with
    | ind _ ih =>
      intro hq
      rw [within_eq] at hq
      rcases List.mem_cons.1 hq with rfl | hq
      · exact .here
      · obtain ⟨c, hc, hq⟩ := List.mem_flatMap.1 hq
        exact .of_child hc (ih _ (hsize ▸ size_lt_of_mem_children hc) rfl hq)
  · intro h
    induction h with
    | here => rw [within_eq]; exact List.mem_cons_self
    | child _ hc ih => exact hclosed p _ ih _ hc

theorem mem_walk_iff {t : Tree} {p : Place} : p ∈ walk t ↔ Reaches (root t) p := by
  rw [walk_eq, mem_within_iff]

/-- A place that the walk reaches is a child of the one right above it, which is reached too. -/
theorem mem_children_above {t : Tree} {p : Place} {step : Step} {above : List Step} (h : p ∈ walk t)
    (habove : p.above = step :: above) :
    ⟨step.parent, above⟩ ∈ walk t ∧ p ∈ children ⟨step.parent, above⟩ := by
  rw [mem_walk_iff] at h ⊢
  cases h with
  | here => cases habove
  | child hq hc =>
    obtain ⟨-, e, hstep⟩ := mem_childrenFrom hc
    obtain ⟨rfl, rfl⟩ := List.cons.inj (habove.symm.trans hstep)
    exact ⟨hq, hc⟩

theorem parent_mem_walk {t : Tree} {p : Place} {step : Step} {above : List Step} (h : p ∈ walk t)
    (habove : p.above = step :: above) : ⟨step.parent, above⟩ ∈ walk t :=
  (mem_children_above h habove).1

end Place

end CodeSurvey.TypeScript
