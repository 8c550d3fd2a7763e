-- Names in front of a text: their characters are neither blanks nor marks, and a name is
-- read up to the first character that cannot belong to it.
import CodeSurvey.Text.Name
import CodeSurvey.Text.WordChar
import CodeSurvey.Proofs.Text.Blank
import CodeSurvey.Proofs.Text.Nested

namespace CodeSurvey.Text

/-! ## Characters of words -/

theorem toNat_of_isAsciiWord {c : Char} (h : isAsciiWord c = true) :
    48 ≤ c.toNat ∧ c.toNat ≤ 57 ∨ 65 ≤ c.toNat ∧ c.toNat ≤ 90 ∨ c.toNat = 95 ∨
      97 ≤ c.toNat ∧ c.toNat ≤ 122 := by
  have hunderscore : c = '_' → c.toNat = 95 := by rintro rfl; rfl
  have hranges : isAsciiWord c = (decide (65 ≤ c.val ∧ c.val ≤ 90) ||
      (decide (97 ≤ c.val) && decide (c.val ≤ 122)) ||
      (decide (48 ≤ c.val) && decide (c.val ≤ 57)) || decide (c = '_')) := rfl
  simp only [hranges, Bool.or_eq_true, Bool.and_eq_true, decide_eq_true_eq,
    UInt32.le_iff_toNat_le] at h
  change (((65 ≤ c.toNat ∧ c.toNat ≤ 90) ∨ (97 ≤ c.toNat ∧ c.toNat ≤ 122)) ∨
    (48 ≤ c.toNat ∧ c.toNat ≤ 57)) ∨ c = '_' at h
  grind

theorem not_blank_of_isAsciiWord {c : Char} (h : isAsciiWord c = true) : isBlank c = false := by
  have hrange := toNat_of_isAsciiWord h
  simp only [isBlank, Bool.or_eq_false_iff, Bool.and_eq_false_iff, decide_eq_false_iff_not,
    beq_eq_false_iff_ne]
  omega

/-- The code points of the blanks beyond ASCII. -/
def wideBlanks : List Nat :=
  [0x85, 0xA0, 0x1680, 0x2000, 0x2001, 0x2002, 0x2003, 0x2004, 0x2005, 0x2006, 0x2007, 0x2008,
    0x2009, 0x200A, 0x2028, 0x2029, 0x202F, 0x205F, 0x3000]

theorem mem_wideBlanks {c : Char} (hblank : isBlank c = true) (hwide : 0x80 ≤ c.toNat) :
    c.toNat ∈ wideBlanks := by
  simp only [isBlank, Bool.or_eq_true, Bool.and_eq_true, decide_eq_true_eq, beq_iff_eq] at hblank
  simp only [wideBlanks, List.mem_cons, List.not_mem_nil, or_false]
  omega

/-- No script has a blank among the characters of its words. -/
theorem not_blank_of_isWordChar {c : Char} (h : isWordChar c = true) : isBlank c = false := by
  rcases Bool.or_eq_true_iff.1 h with h | h
  · exact not_blank_of_isAsciiWord h
  obtain ⟨hwide, hrows⟩ := Bool.and_eq_true_iff.1 h
  have hnone : ∀ n ∈ wideBlanks, onRows wordRows (Char.ofNat n) = false := by decide +kernel
  by_contra hblank
  have hmem := mem_wideBlanks (Bool.not_eq_false _ ▸ hblank) (of_decide_eq_true hwide)
  have hfalse := hnone c.toNat hmem
  rw [Char.ofNat_toNat, hrows] at hfalse
  cases hfalse

/-! ## Reading a name -/

theorem takeName?_append {name rest : List Char} (hfirst : ∃ c ∈ name.head?, isNameStart c = true)
    (hword : ∀ c ∈ name, isAsciiWord c = true) (hrest : ∀ c ∈ rest.head?, isAsciiWord c = false) :
    takeName? (name ++ rest) = some (name, rest) := by
  obtain ⟨c, hc, hstart⟩ := hfirst
  obtain ⟨r, rfl⟩ := List.head?_eq_some_iff.1 hc
  have hr := (List.forall_mem_cons.1 hword).2
  rw [List.cons_append, takeName?, if_pos hstart, takeWhile_append_eq_left hr hrest,
    dropWhile_append_eq_right hr hrest]

theorem isAsciiWord_of_isNameStart {c : Char} (h : isNameStart c = true) : isAsciiWord c = true := by
  unfold isNameStart at h
  unfold isAsciiWord Char.isAlphanum
  rcases Bool.or_eq_true_iff.1 h with h | h
  · simp [h]
  · simp [h]

/-- Of a text with other characters no name is read, or only a part of the text, and then one of
these characters is what follows. -/
theorem takeName?_of_not_ascii {s : List Char} (h : ¬∀ c ∈ s, isAsciiWord c = true)
    (rest : List Char) : takeName? (s ++ rest) = none ∨
      ∃ read c after, takeName? (s ++ rest) = some (read, c :: after) ∧ c ∈ s := by
  cases s with
  | nil => simp at h
  | cons c r =>
    rw [List.cons_append, takeName?]
    split
    · have hr : ¬∀ d ∈ r, isAsciiWord d = true := fun hr =>
        h (List.forall_mem_cons.2 ⟨isAsciiWord_of_isNameStart ‹_›, hr⟩)
      have hne : r.dropWhile isAsciiWord ≠ [] := fun hnil => hr (List.dropWhile_eq_nil_iff.1 hnil)
      obtain ⟨d, after, hdrop⟩ := List.exists_cons_of_ne_nil hne
      refine .inr ⟨c :: (r ++ rest).takeWhile isAsciiWord, d, after ++ rest, ?_, ?_⟩
      · rw [List.dropWhile_append, if_neg (by simpa using hne), hdrop]
        rfl
      · exact List.mem_cons_of_mem c ((List.dropWhile_sublist _).subset (hdrop ▸ List.mem_cons_self))
    · exact .inl rfl

theorem takeName?_append_of_ne_nil {s name after : List Char} (h : takeName? s = some (name, after))
    (hne : after ≠ []) (more : List Char) : takeName? (s ++ more) = some (name, after ++ more) := by
  cases s with
  | nil => cases h
  | cons c r =>
    rw [takeName?] at h
    split at h
    · obtain ⟨rfl, rfl⟩ := Prod.mk.inj (Option.some.inj h)
      have hshort : (r.takeWhile isAsciiWord).length ≠ r.length := fun heq => hne <| by
        have hall := List.takeWhile_eq_self_iff.1
          ((List.takeWhile_prefix isAsciiWord).eq_of_length heq)
        exact List.dropWhile_eq_nil_iff.2 hall
      rw [List.cons_append, takeName?, if_pos ‹_›, List.takeWhile_append, if_neg hshort,
        List.dropWhile_append, if_neg (by simpa using hne)]
    · cases h

theorem not_isAsciiWord_of_blank {c : Char} (h : isBlank c = true) : isAsciiWord c = false := by
  by_contra hword
  rw [not_blank_of_isAsciiWord (Bool.not_eq_false _ ▸ hword)] at h
  cases h

/-- Behind blanks a word does not go on. -/
theorem head?_append_of_allBlank {gap s : List Char} (hgap : allBlank gap = true)
    (hs : ∀ c ∈ s.head?, isAsciiWord c = false) : ∀ c ∈ (gap ++ s).head?, isAsciiWord c = false := by
  intro c hc
  cases gap with
  | nil => exact hs c hc
  | cons d gap =>
    obtain rfl := Option.some.inj hc
    exact not_isAsciiWord_of_blank (allBlank_iff.1 hgap d List.mem_cons_self)

/-! ## Reading a keyword -/

theorem afterKeyword?_eq_some_iff {keyword s rest : List Char} :
    afterKeyword? keyword s = some rest ↔
      ∃ c r, s = keyword ++ c :: r ∧ isBlank c = true ∧ trimStart r = rest := by
  unfold afterKeyword?
  constructor
  · intro h
    split at h
    · rename_i c r hfront
      split at h
      · exact ⟨c, r, dropFront?_eq_some_iff.1 hfront, ‹_›, Option.some.inj h⟩
      · cases h
    · cases h
  · rintro ⟨c, r, hs, hblank, hrest⟩
    rw [dropFront?_eq_some_iff.2 hs]
    dsimp only
    rw [if_pos hblank, hrest]

theorem afterKeyword?_of_head?_ne {c : Char} {s : List Char} (h : s.head? ≠ some c)
    (rest : List Char) : afterKeyword? (c :: rest) s = none := by
  rw [afterKeyword?, dropFront?_of_head?_ne h]

/-- Of what stands behind the keyword and blanks nothing is cut off. -/
theorem afterKeyword?_gap {keyword gap s : List Char} (hne : gap ≠ []) (hgap : allBlank gap = true)
    (hs : ∀ c ∈ s.head?, isBlank c = false) : afterKeyword? keyword (keyword ++ (gap ++ s)) = some s := by
  obtain ⟨c, gap, rfl⟩ := List.exists_cons_of_ne_nil hne
  obtain ⟨hc, hgap⟩ := Bool.and_eq_true_iff.1 hgap
  exact afterKeyword?_eq_some_iff.2 ⟨c, gap ++ s, rfl, hc, trimStart_append hgap hs⟩

theorem afterKeyword?_of_not_blank {keyword s : List Char} (hs : ∀ c ∈ s.head?, isBlank c = false) :
    afterKeyword? keyword (keyword ++ s) = none := by
  rw [Option.eq_none_iff_forall_ne_some]
  intro rest hrest
  obtain ⟨c, r, heq, hblank, -⟩ := afterKeyword?_eq_some_iff.1 hrest
  rw [hs c (by rw [List.append_cancel_left heq]; rfl)] at hblank
  cases hblank

theorem afterKeyword?_append {keyword s rest : List Char} (h : afterKeyword? keyword s = some rest)
    (hne : rest ≠ []) (more : List Char) :
    afterKeyword? keyword (s ++ more) = some (rest ++ more) := by
  obtain ⟨c, r, rfl, hblank, rfl⟩ := afterKeyword?_eq_some_iff.1 h
  exact afterKeyword?_eq_some_iff.2
    ⟨c, r ++ more, by simp, hblank, trimStart_append_of_ne_nil hne more⟩

end CodeSurvey.Text
