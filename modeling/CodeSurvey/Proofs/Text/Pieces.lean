-- The pieces of a text between separators, and texts joined of pieces.
import Mathlib.Data.List.Basic

namespace CodeSurvey.Text

/-- A piece of a text has no separator, and only characters of the text. -/
theorem mem_splitOnP {p : Char → Bool} {s piece : List Char} (h : piece ∈ s.splitOnP p) :
    ∀ c ∈ piece, p c = false ∧ c ∈ s := by
  induction s generalizing piece with
  | nil =>
    obtain rfl : piece = [] := by simpa using h
    simp
  | cons c s ih =>
    rw [List.splitOnP_cons_eq_if_modifyHead] at h
    by_cases hc : p c = true
    · rw [if_pos hc, List.mem_cons] at h
      rcases h with rfl | h
      · simp
      · exact fun x hx => (ih h x hx).imp_right (List.mem_cons_of_mem c)
    · rw [if_neg hc] at h
      obtain ⟨first, rest, hsplit⟩ := List.exists_cons_of_ne_nil (List.splitOnP_ne_nil p s)
      rw [hsplit, List.modifyHead_cons, List.mem_cons] at h
      have hof : ∀ q ∈ first :: rest, ∀ x ∈ q, p x = false ∧ x ∈ s := fun q hq => ih (hsplit ▸ hq)
      rcases h with rfl | h
      · intro x hx
        rcases List.mem_cons.1 hx with rfl | hx
        · exact ⟨by simpa using hc, List.mem_cons_self⟩
        · exact (hof first List.mem_cons_self x hx).imp_right (List.mem_cons_of_mem c)
      · exact fun x hx =>
          (hof piece (List.mem_cons_of_mem _ h) x hx).imp_right (List.mem_cons_of_mem c)

theorem mem_splitOn {sep : Char} {s piece : List Char} (h : piece ∈ s.splitOn sep) :
    sep ∉ piece ∧ ∀ c ∈ piece, c ∈ s := by
  rw [List.splitOn_eq_splitOnP] at h
  exact ⟨fun hmem => by simpa using (mem_splitOnP h sep hmem).1,
    fun c hc => (mem_splitOnP h c hc).2⟩

/-- There is one piece more than separators. -/
theorem length_splitOn (sep : Char) (s : List Char) :
    (s.splitOn sep).length = s.count sep + 1 := by
  induction s with
  | nil => rfl
  | cons c s ih =>
    rw [List.splitOn_cons_eq_if_modifyHead]
    by_cases hc : c = sep
    · rw [if_pos (by simpa using hc), List.length_cons, ih, hc, List.count_cons_self]
    · rw [if_neg (by simpa using hc), List.length_modifyHead, ih, List.count_cons_of_ne hc]

/-- The first piece reaches up to the first separator. -/
theorem take_one_splitOn (sep : Char) (s : List Char) :
    (s.splitOn sep).take 1 = [s.takeWhile (· ≠ sep)] := by
  induction s with
  | nil => rfl
  | cons c s ih =>
    obtain ⟨first, rest, hsplit⟩ := List.exists_cons_of_ne_nil (List.splitOn_ne_nil sep s)
    rw [hsplit, List.take_succ_cons, List.take_zero, List.singleton_inj] at ih
    rw [List.splitOn_cons_eq_if_modifyHead, hsplit]
    by_cases hc : c = sep
    · simp [hc]
    · simp [hc, ih]

/-! ## Joined pieces -/

theorem forall_mem_intercalate {α : Type} {p : α → Prop} {sep : List α} {parts : List (List α)}
    (hsep : ∀ c ∈ sep, p c) (hparts : ∀ part ∈ parts, ∀ c ∈ part, p c) :
    ∀ c ∈ sep.intercalate parts, p c := by
  induction parts with
  | nil => simp
  | cons first parts ih =>
    obtain ⟨hfirst, hrest⟩ := List.forall_mem_cons.1 hparts
    cases parts with
    | nil => simpa using hfirst
    | cons second parts =>
      rw [List.intercalate_cons_cons]
      intro c hc
      rcases List.mem_append.1 hc with hc | hc
      · exact (List.mem_append.1 hc).elim (hfirst c) (hsep c)
      · exact ih hrest c hc

/-- The first pieces, joined, are what all of them begin with. -/
theorem intercalate_take_prefix {α : Type} (sep : List α) (parts : List (List α)) (k : Nat) :
    sep.intercalate (parts.take k) <+: sep.intercalate parts := by
  induction parts generalizing k with
  | nil => simp
  | cons first parts ih =>
    cases k with
    | zero => simp
    | succ k =>
      rw [List.take_succ_cons]
      cases hparts : parts.take k with
      | nil =>
        cases parts with
        | nil => exact List.prefix_refl _
        | cons second parts =>
          rw [List.intercalate_singleton, List.intercalate_cons_cons, List.append_assoc]
          exact List.prefix_append _ _
      | cons second others =>
        have hne : parts ≠ [] := by
          rintro rfl
          simp at hparts
        rw [List.intercalate_cons_of_ne_nil hne, ← hparts,
          List.intercalate_cons_of_ne_nil (by simp [hparts])]
        exact (List.prefix_append_right_inj _).2 (ih k)

theorem mem_intercalate_of_mem {α : Type} (sep : List α) {part : List α} {parts : List (List α)}
    (hpart : part ∈ parts) {c : α} (hc : c ∈ part) : c ∈ sep.intercalate parts := by
  induction parts with
  | nil => cases hpart
  | cons first parts ih =>
    cases parts with
    | nil =>
      obtain rfl := List.mem_singleton.1 hpart
      simpa using hc
    | cons second parts =>
      rw [List.intercalate_cons_cons]
      rcases List.mem_cons.1 hpart with rfl | hpart
      · exact List.mem_append_left _ (List.mem_append_left _ hc)
      · exact List.mem_append_right _ (ih hpart)

end CodeSurvey.Text
