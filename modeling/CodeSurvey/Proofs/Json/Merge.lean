-- Values that take extras. An object takes the entries of another object one by
-- one, so what stands under a key afterwards is the last that came for it; a value
-- of any other kind gives way to the extra as a whole.
import CodeSurvey.Json.Basic
import Mathlib.Data.List.Induction

namespace CodeSurvey.Json

variable {key name : String} {v w : Json} {es gs : List (String × Json)}

/-! ## Entries -/

theorem lookup_cons (key : String) (e : String × Json) (es : List (String × Json)) :
    lookup key (e :: es) = if e.1 = key then some e.2 else lookup key es := by
  unfold lookup
  split
  · rename_i h
    rw [List.find?_cons_of_pos (by simpa using h), Option.map_some]
  · rename_i h
    rw [List.find?_cons_of_neg (by simpa using h)]

theorem lookup_append (key : String) (es gs : List (String × Json)) :
    lookup key (es ++ gs) = (lookup key es).or (lookup key gs) := by
  unfold lookup
  rw [List.find?_append]
  cases es.find? (fun e => e.1 == key) <;> simp

theorem lookup_put (key name : String) (v : Json) (gs : List (String × Json)) :
    lookup key (put name v gs) = if name = key then some v else lookup key gs := by
  induction gs with
  | nil => simp [put, lookup_cons]
  | cons e rest ih =>
    obtain ⟨k, w⟩ := e
    unfold put
    by_cases hk : k = name
    · subst hk
      rw [if_pos (beq_self_eq_true k), lookup_cons, lookup_cons]
      split <;> rfl
    · rw [if_neg (by simpa using hk)]
      split
      · rw [lookup_cons]
      · rw [lookup_cons, ih, lookup_cons]
        by_cases hname : name = key
        · subst hname
          simp [hk]
        · simp [hname]

/-- Of the entries that an object takes, the last one under a key counts. -/
theorem lookup_foldl_put (key : String) (es gs : List (String × Json)) :
    lookup key (es.foldl (fun acc e => put e.1 e.2 acc) gs) =
      (lookup key es.reverse).or (lookup key gs) := by
  induction es using List.reverseRecOn with
  | nil => rfl
  | append_singleton es e ih =>
    rw [List.foldl_append, List.foldl_cons, List.foldl_nil, lookup_put, ih,
      List.reverse_concat, lookup_cons]
    split <;> simp

/-! ## Values -/

/-- The value becomes another one with an extra: an object takes the entries of an object, and has
under each key the last of these, or else what it had; anything else gives way to the extra. -/
def TakesIn (v extra w : Json) : Prop :=
  match v, extra with
  | .object old, .object new => ∃ all, w = .object all ∧
      ∀ key, lookup key all = (lookup key new.reverse).or (lookup key old)
  | _, _ => w = extra

theorem takesIn_merge (v extra : Json) : v.TakesIn extra (v.merge extra) := by
  unfold TakesIn
  split
  · rename_i old new
    exact ⟨_, rfl, fun key => lookup_foldl_put key new old⟩
  · rename_i hnot
    unfold merge
    split
    · rename_i old new
      exact absurd rfl (hnot old new rfl)
    · rfl

/-! ## One key -/

/-- An object in which the key does not stand with different values. -/
def IsClearOn (key : String) : Json → Prop
  | .object entries => lookup key entries.reverse = lookup key entries
  | _ => False

/-- What a clear extra has under a key is what the value then has there. -/
theorem get?_merge {extra : Json} (h : extra.IsClearOn key) (v : Json) :
    (v.merge extra).get? key = (extra.get? key).or (v.get? key) := by
  cases extra with
  | object new =>
    cases v with
    | object old => exact (lookup_foldl_put key new old).trans (congrArg (Option.or · _) h)
    | _ => exact Option.or_none.symm
  | _ => cases h

/-- An object that does not have the key is clear on it. -/
theorem isClearOn_of_none (h : lookup key es = none) : (object es).IsClearOn key := by
  have hnone : lookup key es.reverse = none := by
    rw [lookup, Option.map_eq_none_iff, List.find?_eq_none] at h ⊢
    exact fun e he => h e (List.mem_reverse.1 he)
  exact hnone.trans h.symm

/-- So is one with different keys. -/
theorem isClearOn_of_nodup (key : String) (h : (es.map Prod.fst).Nodup) :
    (object es).IsClearOn key := by
  change lookup key es.reverse = lookup key es
  induction es with
  | nil => rfl
  | cons e es ih =>
    obtain ⟨he, hes⟩ := List.nodup_cons.1 h
    rw [List.reverse_cons, lookup_append, ih hes, lookup_cons, lookup_cons]
    split
    · rename_i hkey
      have hnone : lookup key es = none := by
        refine Option.map_eq_none_iff.2 (List.find?_eq_none.2 fun x hx hk => he ?_)
        rw [hkey, ← beq_iff_eq.1 hk]
        exact List.mem_map_of_mem hx
      rw [hnone, Option.none_or]
    · exact Option.or_none

end CodeSurvey.Json
