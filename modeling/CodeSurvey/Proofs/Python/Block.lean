-- The block under a Python header, line by line: how long it is seen from one of
-- its lines, what a deeper header makes of it, and what follows it.
import CodeSurvey.Python.Block
import CodeSurvey.Proofs.Text.Blank
import Mathlib.Data.List.Basic

namespace CodeSurvey.Python

open Text

/-- A block goes on over a blank line when it does so after it, and over any other line that
is indented further. -/
theorem blockOf_cons (indent : Nat) (line : List Char) (after : List (List Char)) :
    blockOf indent (line :: after) =
      if allBlank line then
        if blockOf indent after = [] then [] else line :: blockOf indent after
      else if indent < indentOf line then line :: blockOf indent after
      else [] := by
  unfold blockOf
  cases hblank : allBlank line with
  | true =>
    rw [List.takeWhile_cons_of_pos (by rw [hblank, Bool.true_or]), List.reverse_cons,
      List.dropWhile_append, List.dropWhile_cons_of_pos hblank, List.dropWhile_nil]
    simp only [List.isEmpty_iff, List.reverse_eq_nil_iff, if_true]
    split
    · rfl
    · rw [List.reverse_append, List.reverse_singleton, List.singleton_append]
  | false =>
    have hkept : List.dropWhile allBlank [line] = [line] :=
      List.dropWhile_cons_of_neg (by simp [hblank])
    by_cases hdeeper : indent < indentOf line
    · rw [List.takeWhile_cons_of_pos (by simp [hdeeper]), List.reverse_cons,
        List.dropWhile_append, hkept, if_pos hdeeper]
      split
      · rename_i h
        rw [List.isEmpty_iff.1 h]
        rfl
      · rw [List.reverse_append, List.reverse_singleton, List.singleton_append]
        rfl
    · rw [List.takeWhile_cons_of_neg (by simp [hblank, hdeeper]), if_neg hdeeper]
      rfl

theorem blockOf_nil (indent : Nat) : blockOf indent [] = [] := rfl

variable {indent : Nat} {line : List Char} {after later : List (List Char)}

theorem blockOf_cons_blank (h : allBlank line = true) : blockOf indent (line :: after) =
    if blockOf indent after = [] then [] else line :: blockOf indent after := by
  rw [blockOf_cons, if_pos h]

theorem blockOf_cons_deeper (h : allBlank line = false) (hdeeper : indent < indentOf line) :
    blockOf indent (line :: after) = line :: blockOf indent after := by
  rw [blockOf_cons, if_neg (by simp [h]), if_pos hdeeper]

theorem blockOf_cons_shallow (h : allBlank line = false) (hshallow : indentOf line ≤ indent) :
    blockOf indent (line :: after) = [] := by
  rw [blockOf_cons, if_neg (by simp [h]), if_neg (Nat.not_lt.2 hshallow)]

/-- The lines of a block come first. -/
theorem blockOf_isPrefix (indent : Nat) (after : List (List Char)) :
    blockOf indent after <+: after := by
  induction after with
  | nil => exact List.prefix_refl _
  | cons line after ih =>
    rw [blockOf_cons]
    split
    · split
      · exact List.nil_prefix
      · exact (List.prefix_cons_inj line).2 ih
    · split
      · exact (List.prefix_cons_inj line).2 ih
      · exact List.nil_prefix

theorem length_blockOf_le (indent : Nat) (after : List (List Char)) :
    (blockOf indent after).length ≤ after.length :=
  (blockOf_isPrefix indent after).length_le

/-- A block of at least one line goes on over its first line. -/
theorem blockOf_cons_of_ne_nil (h : blockOf indent (line :: after) ≠ []) :
    blockOf indent (line :: after) = line :: blockOf indent after := by
  rw [blockOf_cons] at h ⊢
  grind

/-- The first line of a block is blank or indented further. -/
theorem indent_lt_of_ne_nil (h : blockOf indent (line :: after) ≠ [])
    (hblank : allBlank line = false) : indent < indentOf line := by
  by_contra hshallow
  exact h (blockOf_cons_shallow hblank (Nat.not_lt.1 hshallow))

/-- Seen from one of its lines, or from the line after it, a block ends where it ends. -/
theorem length_blockOf_drop {k : Nat} (h : k ≤ (blockOf indent after).length) :
    (blockOf indent (after.drop k)).length = (blockOf indent after).length - k := by
  induction k generalizing after with
  | zero => rfl
  | succ k ih =>
    cases after with
    | nil => simp [blockOf_nil]
    | cons line after =>
      have hne : blockOf indent (line :: after) ≠ [] := fun hnil => by simp [hnil] at h
      rw [blockOf_cons_of_ne_nil hne, List.length_cons] at h ⊢
      rw [List.drop_succ_cons, ih (Nat.le_of_succ_le_succ h)]
      omega

/-- A deeper header has a shorter block. -/
theorem length_blockOf_mono {deeper : Nat} (h : indent ≤ deeper) (after : List (List Char)) :
    (blockOf deeper after).length ≤ (blockOf indent after).length := by
  induction after with
  | nil => exact Nat.le_refl _
  | cons line after ih =>
    cases hblank : allBlank line with
    | true =>
      rw [blockOf_cons_blank hblank, blockOf_cons_blank hblank]
      split
      · exact Nat.zero_le _
      · rename_i hne
        have hpos : 0 < (blockOf indent after).length :=
          Nat.lt_of_lt_of_le (List.length_pos_iff.2 hne) ih
        rw [if_neg (List.length_pos_iff.1 hpos)]
        exact Nat.succ_le_succ ih
    | false =>
      by_cases hdeeper : deeper < indentOf line
      · rw [blockOf_cons_deeper hblank hdeeper,
          blockOf_cons_deeper hblank (Nat.lt_of_le_of_lt h hdeeper)]
        exact Nat.succ_le_succ ih
      · rw [blockOf_cons_shallow hblank (Nat.not_lt.1 hdeeper)]
        exact Nat.zero_le _

/-! ## A longer line -/

theorem allBlank_append_of_false {line : List Char} (h : allBlank line = false) (more : List Char) :
    allBlank (line ++ more) = false := by
  rw [allBlank] at h ⊢
  rw [List.all_append, h, Bool.false_and]

/-- More at the end of a line that is not blank does not indent it. -/
theorem indentOf_append {line : List Char} (h : allBlank line = false) (more : List Char) :
    indentOf (line ++ more) = indentOf line := by
  have hshort : (line.takeWhile isBlank).length ≠ line.length := fun heq => by
    have hall := List.takeWhile_eq_self_iff.1 ((List.takeWhile_prefix isBlank).eq_of_length heq)
    rw [allBlank_iff.2 hall] at h
    cases h
  rw [indentOf, List.takeWhile_append, if_neg hshort, indentOf]

/-- A block ends where it ended when one of its lines, or the line after it, gets longer. -/
theorem length_blockOf_longer {line : List Char} (h : allBlank line = false) (more : List Char)
    (indent : Nat) (above below : List (List Char)) :
    (blockOf indent (above ++ (line ++ more) :: below)).length =
      (blockOf indent (above ++ line :: below)).length := by
  induction above with
  | nil =>
    rw [List.nil_append, List.nil_append, blockOf_cons, blockOf_cons, allBlank_append_of_false h, h,
      indentOf_append h]
    split <;> split <;> rfl
  | cons first above ih =>
    have hnil : blockOf indent (above ++ (line ++ more) :: below) = [] ↔
        blockOf indent (above ++ line :: below) = [] := by
      rw [← List.length_eq_zero_iff, ih, List.length_eq_zero_iff]
    rw [List.cons_append, List.cons_append, blockOf_cons, blockOf_cons]
    simp only [hnil]
    split
    · split
      · rfl
      · exact congrArg Nat.succ ih
    · split
      · exact congrArg Nat.succ ih
      · rfl

/-! ## What follows -/

/-- The first line that is not blank has no blanks in front. -/
def StartsInFirstColumn (lines : List (List Char)) : Prop :=
  ∀ line ∈ (lines.dropWhile allBlank).head?, indentOf line = 0

instance (lines : List (List Char)) : Decidable (StartsInFirstColumn lines) :=
  inferInstanceAs (Decidable (∀ line ∈ (lines.dropWhile allBlank).head?, indentOf line = 0))

theorem blockOf_of_startsInFirstColumn (h : StartsInFirstColumn later) (indent : Nat) :
    blockOf indent later = [] := by
  induction later with
  | nil => rfl
  | cons line later ih =>
    cases hblank : allBlank line with
    | true =>
      have hlater : StartsInFirstColumn later := fun l hl =>
        h l (by rwa [List.dropWhile_cons_of_pos hblank])
      rw [blockOf_cons_blank hblank, if_pos (ih hlater)]
    | false =>
      have hzero : indentOf line = 0 :=
        h line (by rw [List.dropWhile_cons_of_neg (by simp [hblank])]; rfl)
      exact blockOf_cons_shallow hblank (hzero ▸ Nat.zero_le indent)

/-- A block ends before a line in the first column. -/
theorem blockOf_append (h : StartsInFirstColumn later) (indent : Nat) (after : List (List Char)) :
    blockOf indent (after ++ later) = blockOf indent after := by
  induction after with
  | nil => exact blockOf_of_startsInFirstColumn h indent
  | cons line after ih => rw [List.cons_append, blockOf_cons, blockOf_cons, ih]

end CodeSurvey.Python
