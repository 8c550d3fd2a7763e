-- What stands at the places of a tree, and how that changes when a node is put at a
-- place or taken away. Such a change reaches what is below the place and nothing
-- else.
import CodeSurvey.Disk.Node
import Mathlib.Data.List.Infix
import Mathlib.Tactic.Common

namespace CodeSurvey.Disk.Node

/-- The node without what is in it. -/
def bare : Node → Node
  | directory _ => .empty
  | n => n

/-- What stands at a place of the tree, a directory without what is in it. -/
def stands (n : Node) (names : List String) : Option Node := (n.at? names).map bare

@[simp] theorem bare_directory (entries : List (String × Node)) :
    (directory entries).bare = .empty := rfl

@[simp] theorem bare_file (c : Content) : (file c).bare = file c := rfl

@[simp] theorem bare_link (target : String) : (link target).bare = link target := rfl

@[simp] theorem bare_empty : Node.empty.bare = .empty := rfl

theorem stands_eq_some {n b : Node} {names : List String} :
    n.stands names = some b ↔ ∃ x, n.at? names = some x ∧ x.bare = b := by
  simp [stands]

theorem stands_eq_none {n : Node} {names : List String} :
    n.stands names = none ↔ n.at? names = none := by
  simp [stands]

theorem directory_of_stands {n : Node} {names : List String} (h : n.stands names = some .empty) :
    ∃ entries, n.at? names = some (directory entries) := by
  obtain ⟨x, hx, hbare⟩ := stands_eq_some.1 h
  cases x with
  | directory entries => exact ⟨entries, hx⟩
  | _ => simp [bare, Node.empty] at hbare

theorem stands_of_directory {n : Node} {names : List String} {entries : List (String × Node)}
    (h : n.at? names = some (directory entries)) : n.stands names = some .empty := by
  simp [stands, h]

/-! ## Rows of names -/

@[simp] theorem at?_nil (n : Node) : n.at? [] = some n := by
  rw [at?]

@[simp] theorem at?_cons (n : Node) (name : String) (rest : List String) :
    n.at? (name :: rest) = (n.child? name).bind (·.at? rest) := by
  rw [at?]

theorem at?_append (n : Node) (names rest : List String) :
    n.at? (names ++ rest) = (n.at? names).bind (·.at? rest) := by
  induction names generalizing n with
  | nil => simp
  | cons name names ih =>
    rw [List.cons_append, at?_cons, at?_cons, Option.bind_assoc]
    congr 1
    funext c
    exact ih c

/-- Above a place where something stands there are directories. -/
theorem directory_above {n x : Node} {names : List String} {name : String} {rest : List String}
    (h : n.at? (names ++ name :: rest) = some x) :
    ∃ entries, n.at? names = some (directory entries) := by
  rw [at?_append] at h
  obtain ⟨y, hy, hrest⟩ := Option.bind_eq_some_iff.1 h
  rw [at?_cons] at hrest
  cases y with
  | directory entries => exact ⟨entries, hy⟩
  | _ => simp [child?] at hrest

/-! ## Entries -/

theorem find?_putEntry (name : String) (x : Node) (entries : List (String × Node)) (k : String) :
    ((putEntry name x entries).find? (·.1 = k)).map (·.2) =
      if k = name then some x else (entries.find? (·.1 = k)).map (·.2) := by
  induction entries with
  | nil =>
    by_cases h : k = name
    · simp [putEntry, h]
    · simp [putEntry, h, Ne.symm h]
  | cons e rest ih =>
    obtain ⟨j, y⟩ := e
    unfold putEntry
    by_cases hj : name = j
    · subst hj
      by_cases h : k = name
      · simp [h]
      · simp [h, Ne.symm h]
    · rw [if_neg hj]
      split
      · by_cases h : k = name
        · simp [h]
        · simp [h, Ne.symm h]
      · by_cases h : j = k
        · subst h
          simp [Ne.symm hj]
        · rw [List.find?_cons_of_neg (by simpa using h), List.find?_cons_of_neg (by simpa using h)]
          exact ih

theorem find?_dropEntry (name : String) (entries : List (String × Node)) (k : String) :
    ((dropEntry name entries).find? (·.1 = k)).map (·.2) =
      if k = name then none else (entries.find? (·.1 = k)).map (·.2) := by
  unfold dropEntry
  by_cases h : k = name
  · rw [if_pos h, Option.map_eq_none_iff, List.find?_eq_none]
    intro e he
    have := (List.mem_filter.1 he).2
    simp_all
  · rw [if_neg h, List.find?_filter]
    congr 2
    funext e
    by_cases hk : e.1 = k
    · simp [hk, h]
    · simp [hk]

/-! ## Putting a node at a place -/

theorem child?_directory (entries : List (String × Node)) (k : String) :
    (directory entries).child? k = (entries.find? (·.1 = k)).map (·.2) := rfl

theorem put_name (x : Node) (entries : List (String × Node)) (name : String) :
    (directory entries).put x [name] = directory (putEntry name x entries) := by
  simp [put]

theorem put_below (x : Node) {entries : List (String × Node)} {name : String} {rest : List String}
    (h : rest ≠ []) : (directory entries).put x (name :: rest) =
      match (directory entries).child? name with
      | some c => directory (putEntry name (c.put x rest) entries)
      | none => directory entries := by
  rw [put]
  exact if_neg h

theorem drop_name (entries : List (String × Node)) (name : String) :
    (directory entries).drop [name] = directory (dropEntry name entries) := by
  simp [drop]

theorem drop_below {entries : List (String × Node)} {name : String} {rest : List String}
    (h : rest ≠ []) : (directory entries).drop (name :: rest) =
      match (directory entries).child? name with
      | some c => directory (putEntry name (c.drop rest) entries)
      | none => directory entries := by
  rw [drop]
  exact if_neg h

/-- The node at a name after a node was put somewhere below: only the first name matters. -/
theorem child?_put {entries : List (String × Node)} (x : Node) (name : String) (rest : List String)
    (k : String) : ((directory entries).put x (name :: rest)).child? k =
      if k = name then
        (if rest = [] then some x else ((directory entries).child? name).map (·.put x rest))
      else (directory entries).child? k := by
  by_cases hrest : rest = []
  · subst hrest
    rw [put_name, child?_directory, find?_putEntry, if_pos rfl]
    rfl
  · rw [put_below x hrest, if_neg hrest]
    cases hc : (directory entries).child? name with
    | none =>
      by_cases hk : k = name
      · simp [hk, hc]
      · simp [hk]
    | some c => rw [child?_directory, find?_putEntry, child?_directory, Option.map_some]

theorem child?_drop {entries : List (String × Node)} (name : String) (rest : List String)
    (k : String) : ((directory entries).drop (name :: rest)).child? k =
      if k = name then
        (if rest = [] then none else ((directory entries).child? name).map (·.drop rest))
      else (directory entries).child? k := by
  by_cases hrest : rest = []
  · subst hrest
    rw [drop_name, child?_directory, find?_dropEntry, if_pos rfl]
    rfl
  · rw [drop_below hrest, if_neg hrest]
    cases hc : (directory entries).child? name with
    | none =>
      by_cases hk : k = name
      · simp [hk, hc]
      · simp [hk]
    | some c => rw [child?_directory, find?_putEntry, child?_directory, Option.map_some]

theorem putEntry_putEntry (name : String) (x y : Node) (entries : List (String × Node)) :
    putEntry name y (putEntry name x entries) = putEntry name y entries := by
  induction entries with
  | nil => simp [putEntry]
  | cons e rest ih =>
    obtain ⟨k, z⟩ := e
    by_cases hk : name = k
    · simp [putEntry, hk]
    · by_cases hlt : name < k
      · simp [putEntry, hk, hlt]
      · simp [putEntry, hk, hlt, ih]

theorem bare_put (n x : Node) {names : List String} (h : names ≠ []) :
    (n.put x names).bare = n.bare := by
  cases names with
  | nil => exact absurd rfl h
  | cons name rest =>
    cases n with
    | directory entries =>
      by_cases hrest : rest = []
      · rw [hrest, put_name, bare_directory, bare_directory]
      · rw [put_below x hrest]
        split <;> rfl
    | _ => rfl

theorem bare_drop (n : Node) (names : List String) : (n.drop names).bare = n.bare := by
  cases names with
  | nil => rfl
  | cons name rest =>
    cases n with
    | directory entries =>
      by_cases hrest : rest = []
      · rw [hrest, drop_name, bare_directory, bare_directory]
      · rw [drop_below hrest]
        split <;> rfl
    | _ => rfl

/-- A node that is put at a place leaves what stands elsewhere. -/
theorem stands_put (n x : Node) {names q : List String} (h : ¬ names <+: q) :
    (n.put x names).stands q = n.stands q := by
  induction names generalizing n q with
  | nil => exact absurd (List.nil_prefix) h
  | cons name rest ih =>
    cases q with
    | nil => simp [stands, bare_put n x (List.cons_ne_nil name rest)]
    | cons k q =>
      cases n with
      | directory entries =>
        unfold stands
        rw [at?_cons, at?_cons, child?_put]
        by_cases hk : k = name
        · subst hk
          have hrest : ¬ rest <+: q := fun hp => h (List.prefix_cons_inj k |>.2 hp)
          have hne : rest ≠ [] := by
            rintro rfl
            exact hrest List.nil_prefix
          rw [if_pos rfl, if_neg hne]
          cases (directory entries).child? k with
          | none => rfl
          | some c => simpa [stands] using ih c hrest
        · rw [if_neg hk]
      | _ => rfl

theorem stands_drop (n : Node) {names q : List String} (h : ¬ names <+: q) :
    (n.drop names).stands q = n.stands q := by
  induction names generalizing n q with
  | nil => exact absurd (List.nil_prefix) h
  | cons name rest ih =>
    cases q with
    | nil => simp [stands, bare_drop]
    | cons k q =>
      cases n with
      | directory entries =>
        unfold stands
        rw [at?_cons, at?_cons, child?_drop]
        by_cases hk : k = name
        · subst hk
          have hrest : ¬ rest <+: q := fun hp => h (List.prefix_cons_inj k |>.2 hp)
          have hne : rest ≠ [] := by
            rintro rfl
            exact hrest List.nil_prefix
          rw [if_pos rfl, if_neg hne]
          cases (directory entries).child? k with
          | none => rfl
          | some c => simpa [stands] using ih c hrest
        · rw [if_neg hk]
      | _ => rfl

/-- A node is put at a place in a directory that is there. -/
theorem at?_put {n : Node} (x : Node) {above : List String} {entries : List (String × Node)}
    (h : n.at? above = some (directory entries)) (name : String) (q : List String) :
    (n.put x (above ++ [name])).at? (above ++ name :: q) = x.at? q := by
  induction above generalizing n with
  | nil =>
    obtain rfl := Option.some.inj ((at?_nil n).symm.trans h)
    rw [List.nil_append, List.nil_append, at?_cons, child?_put]
    simp
  | cons k above ih =>
    rw [at?_cons] at h
    obtain ⟨c, hc, habove⟩ := Option.bind_eq_some_iff.1 h
    cases n with
    | directory es =>
      rw [List.cons_append, List.cons_append, at?_cons, child?_put, if_pos rfl,
        if_neg (by simp), hc]
      exact ih habove
    | _ => simp [child?] at hc

/-- Behind a drop there is nothing at the place. -/
theorem at?_drop (n : Node) {names : List String} (h : names ≠ []) (q : List String) :
    (n.drop names).at? (names ++ q) = none := by
  induction names generalizing n with
  | nil => exact absurd rfl h
  | cons k rest ih =>
    cases n with
    | directory es =>
      rw [List.cons_append, at?_cons, child?_drop, if_pos rfl]
      by_cases hrest : rest = []
      · simp [hrest]
      · rw [if_neg hrest]
        cases (directory es).child? k with
        | none => rfl
        | some c => simpa using ih c hrest
    | _ => simp [drop, child?]

/-- A node put below one that was put before: the second goes into the first. -/
theorem put_put {n : Node} (x y : Node) {above : List String} {entries : List (String × Node)}
    (h : n.at? above = some (directory entries)) (name : String) {q : List String} (hq : q ≠ []) :
    (n.put x (above ++ [name])).put y (above ++ name :: q) =
      n.put (x.put y q) (above ++ [name]) := by
  induction above generalizing n with
  | nil =>
    obtain rfl := Option.some.inj ((at?_nil n).symm.trans h)
    have hname : (directory (putEntry name x entries)).child? name = some x := by
      rw [child?_directory, find?_putEntry, if_pos rfl]
    rw [List.nil_append, List.nil_append, put_name, put_name, put_below y hq, hname]
    simp only [putEntry_putEntry]
  | cons k above ih =>
    rw [at?_cons] at h
    obtain ⟨c, hc, habove⟩ := Option.bind_eq_some_iff.1 h
    cases n with
    | directory es =>
      have hput : (directory (putEntry k (c.put x (above ++ [name])) es)).child? k =
          some (c.put x (above ++ [name])) := by
        rw [child?_directory, find?_putEntry, if_pos rfl]
      rw [List.cons_append, List.cons_append, put_below x (by simp),
        put_below (x.put y q) (by simp), hc]
      dsimp only
      rw [put_below y (by simp), hput]
      simp only [putEntry_putEntry]
      rw [ih habove]
    | _ => simp [child?] at hc

end CodeSurvey.Disk.Node
