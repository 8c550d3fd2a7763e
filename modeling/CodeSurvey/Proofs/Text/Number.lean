-- The texts that write whole numbers in decimal digits, and the readers of numbers: they
-- take just these texts, up to their bounds, and a number is read off its own text.
import CodeSurvey.Text.Number

namespace CodeSurvey.Text

/-! ## Digits -/

/-- The text is the digits of the number, perhaps with zeros in front. -/
structure IsDigits (s : List Char) (n : Nat) : Prop where
  ne_nil : s ≠ []
  digit : ∀ c ∈ s, c.isDigit = true
  value : Nat.ofDigitChars 10 s 0 = n

variable {s : List Char}

theorem digits?_iff {n : Nat} : digits? s = some n ↔ IsDigits s n := by
  have hvalue : s.foldl (fun n c => 10 * n + digitValue c) 0 = Nat.ofDigitChars 10 s 0 :=
    (Nat.ofDigitChars_eq_foldl ..).symm
  unfold digits?
  rw [hvalue]
  constructor
  · intro h
    split at h
    · cases h
    · rename_i hdigits
      simp only [Bool.or_eq_true, List.isEmpty_iff, Bool.not_eq_true', not_or,
        Bool.not_eq_false] at hdigits
      exact ⟨hdigits.1, List.all_eq_true.1 hdigits.2, Option.some.inj h⟩
  · rintro ⟨hne, hdigit, rfl⟩
    have hall : s.all Char.isDigit = true := List.all_eq_true.2 hdigit
    simp [hne, hall]

theorem isDigits_toDigits (n : Nat) : IsDigits (Nat.toDigits 10 n) n where
  ne_nil := Nat.toDigits_ne_nil
  digit _ hc := Nat.isDigit_of_mem_toDigits (by decide) (by decide) hc
  value := Nat.ofDigitChars_ten_toDigits

/-! ## Numbers -/

/-- The text writes the number: digits, with a sign in front or without. -/
inductive Writes : List Char → Int → Prop
  | bare {ds : List Char} {n : Nat} : IsDigits ds n → Writes ds n
  | plus {ds : List Char} {n : Nat} : IsDigits ds n → Writes ('+' :: ds) n
  | minus {ds : List Char} {n : Nat} : IsDigits ds n → Writes ('-' :: ds) (-n)

/-- Digits do not begin with a sign. -/
theorem IsDigits.not_sign {c : Char} {ds : List Char} {n : Nat} (hc : c.isDigit = false) :
    ¬ IsDigits (c :: ds) n := by
  intro h
  rw [h.digit c List.mem_cons_self] at hc
  cases hc

theorem writes_minus {ds : List Char} {n : Int} :
    Writes ('-' :: ds) n ↔ ∃ m, IsDigits ds m ∧ -(m : Int) = n := by
  constructor
  · rintro (h | h | h)
    · exact absurd h (IsDigits.not_sign (by decide))
    · exact ⟨_, h, rfl⟩
  · rintro ⟨m, h, rfl⟩
    exact .minus h

theorem writes_plus {ds : List Char} {n : Int} :
    Writes ('+' :: ds) n ↔ ∃ m, IsDigits ds m ∧ (m : Int) = n := by
  constructor
  · rintro (h | h | h)
    · exact absurd h (IsDigits.not_sign (by decide))
    · exact ⟨_, h, rfl⟩
  · rintro ⟨m, h, rfl⟩
    exact .plus h

theorem writes_bare {n : Int} (hminus : ∀ ds, s ≠ '-' :: ds) (hplus : ∀ ds, s ≠ '+' :: ds) :
    Writes s n ↔ ∃ m, IsDigits s m ∧ (m : Int) = n := by
  constructor
  · rintro (h | h | h)
    · exact ⟨_, h, rfl⟩
    · exact absurd rfl (hplus _)
    · exact absurd rfl (hminus _)
  · rintro ⟨m, h, rfl⟩
    exact .bare h

/-- The reader of numbers with bounds takes the texts that write a number between them. -/
theorem signed?_iff {lo hi n : Int} :
    signed? lo hi s = some n ↔ Writes s n ∧ lo ≤ n ∧ n < hi := by
  unfold signed?
  simp only [Option.filter_eq_some_iff, Bool.and_eq_true, decide_eq_true_eq]
  refine and_congr_left fun _ => ?_
  split
  · simp [writes_minus, ← digits?_iff, Option.bind_eq_some_iff]
  · simp [writes_plus, ← digits?_iff]
  · rename_i hminus hplus
    simp [writes_bare hminus hplus, ← digits?_iff]

/-- A text writes one number. -/
theorem Writes.unique {m n : Int} (hm : Writes s m) (hn : Writes s n) : m = n := by
  have hread : signed? (min m n) (max m n + 1) s = some m :=
    signed?_iff.2 ⟨hm, by omega, by omega⟩
  have hread' : signed? (min m n) (max m n + 1) s = some n :=
    signed?_iff.2 ⟨hn, by omega, by omega⟩
  exact Option.some.inj (hread.symm.trans hread')

/-- A number is written by its own text. -/
theorem writes_toString (n : Int) : Writes (toString n).toList n := by
  cases n with
  | ofNat n =>
    have htext : (toString (Int.ofNat n)).toList = Nat.toDigits 10 n := String.toList_ofList
    rw [htext]
    exact .bare (isDigits_toDigits n)
  | negSucc n =>
    have htext : (toString (Int.negSucc n)).toList = '-' :: Nat.toDigits 10 (n + 1) := by
      show ("-" ++ String.ofList (Nat.toDigits 10 (n + 1))).toList = _
      simp
    rw [htext]
    exact .minus (isDigits_toDigits (n + 1))

end CodeSurvey.Text
