-- What a compact JSON text is read back as. Each piece of a text that the
-- printer writes is read by the decoder of its kind, whatever closes it, and the
-- decoder stops right behind it. So lists and objects are read piece by piece.
import CodeSurvey.Json.Decode
import CodeSurvey.Proofs.Text.Number
import Mathlib.Data.List.Forall2
import Mathlib.Tactic.Common

namespace CodeSurvey.Json

/-! ## The cursor -/

/-- What can stand behind a value in a compact text. -/
def Closed (rest : List Char) : Prop :=
  ∀ c ∈ rest.head?, c = ',' ∨ c = ']' ∨ c = '\x7d'

theorem closed_nil : Closed [] := by simp [Closed]

theorem closed_cons {c : Char} {r : List Char} (h : c = ',' ∨ c = ']' ∨ c = '\x7d') :
    Closed (c :: r) := by simpa [Closed] using h

/-- The decoder reads the value off the text, whatever closes that, and stops behind it. -/
def Decodes {α : Type} (read : Decoder α) (text : List Char) (a : α) : Prop :=
  ∀ rest place, Closed rest → ∃ p, read ⟨text ++ rest, place⟩ = .ok (a, ⟨rest, p⟩)

theorem Cursor.skip_rest (n : Nat) (c : Cursor) : (c.skip n).rest = c.rest.drop n := by
  induction n generalizing c with
  | zero => rfl
  | succ n ih =>
    rw [skip, ih]
    unfold next
    split
    · rename_i h
      simp [h]
    · rename_i h
      simp [h]

theorem Cursor.skip_eq (n : Nat) (text : List Char) (place : Place) :
    ∃ p, Cursor.skip n ⟨text, place⟩ = ⟨text.drop n, p⟩ := by
  refine ⟨(Cursor.skip n ⟨text, place⟩).place, ?_⟩
  have h := Cursor.skip_rest n ⟨text, place⟩
  generalize Cursor.skip n ⟨text, place⟩ = c at h
  cases c
  simp_all

/-- A token that starts here is not looked for further on. -/
theorem Cursor.settle_cons {h : Char} (r : List Char) (place : Place) (hg : isGap h = false) :
    Cursor.settle ⟨h :: r, place⟩ = ⟨h :: r, place⟩ := by
  simp [settle, hg, skip]

theorem Cursor.token_cons {h : Char} (r : List Char) (place : Place) (hg : isGap h = false) :
    Cursor.token ⟨h :: r, place⟩ = .ok (h, ⟨h :: r, place⟩) := by
  simp [token, Cursor.settle_cons r place hg]

/-! ## Strings -/

theorem hexValue?_hexDigit : ∀ n < 16, hexValue? (Text.hexDigit n) = some n := by decide

/-- The escape of a control character by its number is read back. -/
theorem readNumbered_control {n : Nat} (hn : n < 0x20) (tail : List Char) (place : Place) :
    ∃ p, readNumbered
        ⟨'0' :: '0' :: Text.hexDigit (n / 16) :: Text.hexDigit (n % 16) :: tail, place⟩ =
      .ok (Char.ofNat n, ⟨tail, p⟩) := by
  have hhigh := hexValue?_hexDigit (n / 16) (by omega)
  have hlow := hexValue?_hexDigit (n % 16) (by omega)
  have hzero : hexValue? '0' = some 0 := by decide
  have hvalue : ((0 * 16 + 0) * 16 + n / 16) * 16 + n % 16 = n := by omega
  obtain ⟨p, hp⟩ := Cursor.skip_eq 4
    ('0' :: '0' :: Text.hexDigit (n / 16) :: Text.hexDigit (n % 16) :: tail) place
  have hex : readHex ⟨'0' :: '0' :: Text.hexDigit (n / 16) :: Text.hexDigit (n % 16) :: tail,
      place⟩ = .ok (n, ⟨tail, p⟩) := by
    unfold readHex
    simp only [hhigh, hlow, hzero, hvalue, hp, List.drop_succ_cons, List.drop_zero]
  have hsurrogate : (decide (0xDC00 ≤ n) && decide (n ≤ 0xDFFF)) = false := by
    simp only [Bool.and_eq_false_iff, decide_eq_false_iff_not]
    omega
  have hplain : (decide (n < 0xD800) || decide (0xDBFF < n)) = true := by
    simp only [Bool.or_eq_true, decide_eq_true_eq]
    omega
  refine ⟨p, ?_⟩
  unfold readNumbered
  rw [hex]
  simp only [bind, Except.bind, hsurrogate, hplain, Bool.false_eq_true, if_false, if_true]

theorem readStringFrom_plain {c : Char} (hquote : c ≠ '"') (hback : c ≠ '\\')
    (hcontrol : ¬ c.toNat < 0x20) (fuel : Nat) (read : List Char) (tail : List Char)
    (place : Place) :
    readStringFrom (fuel + 1) read ⟨c :: tail, place⟩ =
      readStringFrom fuel (c :: read) ⟨tail, place.next c⟩ := by
  rw [readStringFrom]
  split
  · rename_i h; cases h
  · rename_i h; simp only [List.cons.injEq] at h; exact absurd h.1 hquote
  · rename_i h; simp only [List.cons.injEq] at h; exact absurd h.1 hback
  · rename_i h
    simp only [List.cons.injEq] at h
    obtain ⟨rfl, rfl⟩ := h
    rw [if_neg hcontrol]
    rfl

/-- One escaped character is read back. -/
theorem readStringFrom_escaped (fuel : Nat) (read : List Char) (c : Char) (tail : List Char)
    (place : Place) :
    ∃ p, readStringFrom (fuel + 1) read ⟨escapedChar c ++ tail, place⟩ =
      readStringFrom fuel (c :: read) ⟨tail, p⟩ := by
  unfold escapedChar
  split
  · rename_i h; subst h; exact ⟨_, rfl⟩
  rename_i hquote
  split
  · rename_i h; subst h; exact ⟨_, rfl⟩
  rename_i hback
  split
  · rename_i h; subst h; exact ⟨_, rfl⟩
  split
  · rename_i h; subst h; exact ⟨_, rfl⟩
  split
  · rename_i h; subst h; exact ⟨_, rfl⟩
  split
  · rename_i h
    have : c = Char.ofNat 8 := by rw [← h, Char.ofNat_toNat]
    subst this; exact ⟨_, rfl⟩
  split
  · rename_i h
    have : c = Char.ofNat 12 := by rw [← h, Char.ofNat_toNat]
    subst this; exact ⟨_, rfl⟩
  split
  · rename_i h
    obtain ⟨p, hp⟩ := readNumbered_control h tail ((place.next '\\').next 'u')
    rw [Char.ofNat_toNat] at hp
    refine ⟨p, ?_⟩
    change ((readNumbered ⟨'0' :: '0' :: Text.hexDigit (c.toNat / 16) ::
      Text.hexDigit (c.toNat % 16) :: tail, (place.next '\\').next 'u'⟩).bind _) = _
    rw [hp]
    rfl
  · rename_i h
    exact ⟨_, readStringFrom_plain hquote hback h fuel read tail place⟩

/-- The characters of a string are read back up to the closing quote. -/
theorem readStringFrom_chars (s : List Char) (fuel : Nat) (hf : s.length < fuel)
    (read tail : List Char) (place : Place) :
    ∃ p, readStringFrom fuel read ⟨s.flatMap escapedChar ++ '"' :: tail, place⟩ =
      .ok (String.ofList (read.reverse ++ s), ⟨tail, p⟩) := by
  induction s generalizing fuel read place with
  | nil =>
    obtain ⟨fuel, rfl⟩ : ∃ n, fuel = n + 1 := ⟨fuel - 1, by simp at hf; omega⟩
    exact ⟨place.next '"', by simp [readStringFrom, Cursor.next]⟩
  | cons c s ih =>
    obtain ⟨fuel, rfl⟩ : ∃ n, fuel = n + 1 := ⟨fuel - 1, by simp at hf; omega⟩
    rw [List.flatMap_cons, List.append_assoc]
    obtain ⟨p, hp⟩ :=
      readStringFrom_escaped fuel read c (s.flatMap escapedChar ++ '"' :: tail) place
    obtain ⟨p', hp'⟩ := ih fuel (by simpa using hf) (c :: read) p
    exact ⟨p', by rw [hp, hp']; simp⟩

theorem length_le_flatMap_escapedChar (s : List Char) :
    s.length ≤ (s.flatMap escapedChar).length := by
  induction s with
  | nil => simp
  | cons c s ih =>
    have : 1 ≤ (escapedChar c).length := by
      unfold escapedChar
      split_ifs <;> simp
    rw [List.flatMap_cons, List.length_append, List.length_cons]
    omega

theorem readStringBody_chars (s : String) (tail : List Char) (place : Place) :
    ∃ p, readStringBody ⟨s.toList.flatMap escapedChar ++ '"' :: tail, place⟩ =
      .ok (s, ⟨tail, p⟩) := by
  have hlen := length_le_flatMap_escapedChar s.toList
  have h := readStringFrom_chars s.toList
    ((s.toList.flatMap escapedChar ++ '"' :: tail).length + 1)
    (by rw [List.length_append]; omega) [] tail place
  simpa [readStringBody] using h

theorem stringText_append (s : String) (rest : List Char) :
    stringText s ++ rest = '"' :: (s.toList.flatMap escapedChar ++ '"' :: rest) := by
  simp [stringText]

theorem decodeText_stringText (s : String) : Decodes decodeText (stringText s) s := by
  intro rest place _
  rw [stringText_append]
  obtain ⟨p, hp⟩ := readStringBody_chars s rest (place.next '"')
  refine ⟨p, ?_⟩
  unfold decodeText
  rw [Cursor.token_cons _ _ (by decide)]
  exact hp

/-! ## Truth values and what may lack -/

theorem decodeBool_chars (b : Bool) : Decodes decodeBool (chars (.bool b)) b := by
  intro rest place _
  cases b
  · exact ⟨_, rfl⟩
  · exact ⟨_, rfl⟩

/-- What is read under the option is read without it, unless it looks like null. -/
theorem Decodes.some {α : Type} {read : Decoder α} {h : Char} {text : List Char} {a : α}
    (hd : Decodes read (h :: text) a) (hn : h ≠ 'n') (hg : isGap h = false) :
    Decodes (decodeOption read) (h :: text) (some a) := by
  intro rest place hc
  obtain ⟨p, hp⟩ := hd rest place hc
  refine ⟨p, ?_⟩
  unfold decodeOption
  rw [List.cons_append] at hp ⊢
  rw [Cursor.settle_cons _ _ hg]
  simp only
  split
  · rename_i heq
    simp only [List.cons.injEq] at heq
    exact absurd heq.1 hn
  · rw [hp]
    rfl

/-! ## Counts -/

theorem natText_ne_nil (n : Nat) : natText n ≠ [] := Nat.toDigits_ne_nil

theorem isDigit_of_mem_natText {n : Nat} {c : Char} (h : c ∈ natText n) : c.isDigit = true :=
  Nat.isDigit_of_mem_toDigits (by decide) (by decide) h

theorem digits?_natText (n : Nat) : Text.digits? (natText n) = some n :=
  Text.digits?_iff.2 (Text.isDigits_toDigits n)

/-- Only zero starts with the digit zero. -/
theorem natText_zero_cons {n : Nat} {r : List Char} (h : natText n = '0' :: r) : r = [] := by
  induction n using Nat.strongRecOn generalizing r with
  | ind n ih =>
    unfold natText at h
    rw [Nat.toDigits_eq_if (by decide)] at h
    split at h
    · simp only [List.cons.injEq] at h
      exact h.2.symm
    · rename_i hn
      exfalso
      cases hd : natText (n / 10) with
      | nil => exact natText_ne_nil _ hd
      | cons c cs =>
        change natText (n / 10) ++ _ = _ at h
        rw [hd, List.cons_append, List.cons.injEq] at h
        obtain ⟨rfl, -⟩ := h
        have hcs : cs = [] := ih (n / 10) (by omega) hd
        subst hcs
        have hzero := digits?_natText (n / 10)
        rw [hd] at hzero
        have : n / 10 = 0 := by simpa [Text.digits?, Text.digitValue] using hzero.symm
        omega

/-- The digits of a number end where the text behind it starts. -/
theorem takeWhile_natText (n : Nat) {rest : List Char} (hc : Closed rest) :
    (natText n ++ rest).takeWhile Char.isDigit = natText n := by
  rw [List.takeWhile_append_of_pos fun c h => isDigit_of_mem_natText h]
  cases rest with
  | nil => simp
  | cons c r =>
    have : c.isDigit = false := by
      rcases hc c (by simp) with rfl | rfl | rfl <;> decide
    simp [this]

/-- Digits are read up to what closes them. -/
theorem readNumber_natText (negative : Bool) (n : Nat) {rest : List Char} (hc : Closed rest)
    (place : Place) :
    ∃ p, readNumber negative ⟨natText n ++ rest, place⟩ =
      .ok (numberOf negative (natText n) [] none, ⟨rest, p⟩) := by
  obtain ⟨p, hp⟩ := Cursor.skip_eq (natText n).length (natText n ++ rest) place
  rw [List.drop_left] at hp
  have hrun : digitRun ⟨natText n ++ rest, place⟩ = natText n := takeWhile_natText n hc
  have hfraction : readFraction ⟨rest, p⟩ = .ok ([], ⟨rest, p⟩) := by
    unfold readFraction
    split
    · rename_i r heq
      simp only at heq
      rcases hc '.' (by simp [heq]) with h | h | h <;> exact absurd h (by decide)
    · rfl
  refine ⟨p, ?_⟩
  unfold readNumber
  rw [hrun]
  cases hd : natText n with
  | nil => exact absurd hd (natText_ne_nil n)
  | cons h t =>
    have hlead : ¬ (h = '0' ∧ (h :: t).length > 1) := by
      rintro ⟨rfl, hlen⟩
      rw [natText_zero_cons hd] at hlen
      simp at hlen
    rw [hd] at hp
    simp only [List.cons_append, List.isEmpty_cons, Bool.false_eq_true, if_false, Bool.and_eq_true,
      decide_eq_true_eq, if_neg hlead]
    rw [← List.cons_append, hp, hfraction]
    simp only [bind, Except.bind]
    cases rest with
    | nil => rfl
    | cons e r =>
      have he : ¬ ((decide (e = 'e') || decide (e = 'E')) = true) := by
        rcases hc e (by simp) with rfl | rfl | rfl <;> decide
      simp only [if_neg he]

/-- The digits behind the sign of a number that a word holds are that number. -/
theorem numberOf_natText {n : Int} (hlow : -(Text.wordSize 63 : Nat) ≤ n)
    (hhigh : n < (Text.wordSize 64 : Nat)) :
    numberOf (decide (n < 0)) (natText n.natAbs) [] none = .whole n := by
  have hvalue : (if n < 0 then -(n.natAbs : Int) else n.natAbs) = n := by
    split <;> omega
  have hzero : (decide (n < 0) && decide ((n.natAbs : Int) = 0)) = false := by
    rw [Bool.and_eq_false_iff, decide_eq_false_iff_not, decide_eq_false_iff_not]
    omega
  simp only [numberOf, List.append_nil, digitsValue, digits?_natText, Option.getD_some, hzero,
    Bool.false_or, Bool.or_eq_true, decide_eq_true_eq, hvalue]
  rw [if_neg (by omega)]

/-- A number that a word holds is read from its digits, once its sign is. -/
theorem readNumber_natAbs {n : Int} (hlow : -(Text.wordSize 63 : Nat) ≤ n)
    (hhigh : n < (Text.wordSize 64 : Nat)) {rest : List Char} (hc : Closed rest) (place : Place) :
    ∃ p, readNumber (decide (n < 0)) ⟨natText n.natAbs ++ rest, place⟩ =
      .ok (.whole n, ⟨rest, p⟩) := by
  obtain ⟨p, hp⟩ := readNumber_natText (decide (n < 0)) n.natAbs hc place
  exact ⟨p, by rw [hp, numberOf_natText hlow hhigh]⟩

theorem isGap_of_isDigit {c : Char} (h : c.isDigit = true) : isGap c = false := by
  simp only [isGap, Bool.or_eq_false_iff, decide_eq_false_iff_not]
  refine ⟨⟨⟨?_, ?_⟩, ?_⟩, ?_⟩ <;> rintro rfl <;> exact absurd h (by decide)

theorem exists_natText_cons (n : Nat) : ∃ h t, natText n = h :: t ∧ h.isDigit = true := by
  cases hd : natText n with
  | nil => exact absurd hd (natText_ne_nil n)
  | cons h t => exact ⟨h, t, rfl, isDigit_of_mem_natText (n := n) (by simp [hd])⟩

/-- A count is read back, in all its 64 bits. -/
theorem decodeCount_nat (n : UInt64) : Decodes decodeCount (chars (nat n.toNat)) n := by
  intro rest place hc
  have htext : chars (nat n.toNat) = natText n.toNat := by
    simp only [nat, int, chars, Number.chars, intText]
    rw [if_neg (by omega), Int.natAbs_natCast]
  have hbound : (n.toNat : Int) < (Text.wordSize 64 : Nat) := by exact_mod_cast n.toNat_lt
  obtain ⟨p, hp⟩ := readNumber_natAbs (by omega) hbound hc place
  refine ⟨p, ?_⟩
  obtain ⟨h, t, hd, hdigit⟩ := exists_natText_cons n.toNat
  have hminus : h ≠ '-' := by rintro rfl; exact absurd hdigit (by decide)
  rw [Int.natAbs_natCast, hd, decide_eq_false (by omega)] at hp
  rw [htext, hd]
  unfold decodeCount
  rw [List.cons_append, Cursor.token_cons _ _ (isGap_of_isDigit hdigit)]
  simp only [List.cons_append] at hp
  simp [bind, Except.bind, hminus, hdigit, hp, pure, Except.pure]

/-! ## Arrays -/

/-- The text starts with a token that is not the end of an array. -/
def StartsItem (text : List Char) : Prop :=
  ∃ h t, text = h :: t ∧ isGap h = false ∧ h ≠ ']'

/-- The items behind another one, the comma in front. -/
def moreItems : List Json → List Char
  | [] => []
  | v :: r => ',' :: itemsText (v :: r)

theorem itemsText_cons (v : Json) (r : List Json) :
    itemsText (v :: r) = v.chars ++ moreItems r := by
  cases r with
  | nil => simp [itemsText, moreItems]
  | cons w r => simp [itemsText, moreItems]

theorem closed_moreItems (vs : List Json) (tail : List Char) :
    Closed (moreItems vs ++ ']' :: tail) := by
  cases vs with
  | nil => exact closed_cons (.inr (.inl rfl))
  | cons v r => exact closed_cons (.inl rfl)

theorem itemAhead_end (first : Bool) (tail : List Char) (place : Place) :
    itemAhead first ⟨']' :: tail, place⟩ = .ok (false, ⟨']' :: tail, place⟩) := by
  unfold itemAhead
  rw [Cursor.settle_cons _ _ (by decide)]
  rfl

theorem itemAhead_first {text : List Char} (ht : StartsItem text) (rest : List Char)
    (place : Place) : itemAhead true ⟨text ++ rest, place⟩ = .ok (true, ⟨text ++ rest, place⟩) := by
  obtain ⟨h, t, rfl, hg, hne⟩ := ht
  unfold itemAhead
  rw [List.cons_append, Cursor.settle_cons _ _ hg]
  simp [hne]

theorem itemAhead_comma {text : List Char} (ht : StartsItem text) (rest : List Char)
    (place : Place) :
    ∃ p, itemAhead false ⟨',' :: text ++ rest, place⟩ = .ok (true, ⟨text ++ rest, p⟩) := by
  obtain ⟨h, t, rfl, hg, hne⟩ := ht
  refine ⟨place.next ',', ?_⟩
  unfold itemAhead
  rw [List.cons_append, Cursor.settle_cons _ _ (by decide)]
  simp [Cursor.next, Cursor.settle_cons _ _ hg, hne]

theorem listEnd_eq (tail : List Char) (place : Place) :
    ∃ p, listEnd ⟨']' :: tail, place⟩ = .ok ⟨tail, p⟩ := by
  refine ⟨place.next ']', ?_⟩
  unfold listEnd
  rw [Cursor.settle_cons _ _ (by decide)]
  rfl

section Items

variable {α : Type} {read : Decoder α} {vs : List Json} {xs : List α}

/-- The items that are left are read behind those read before, up to the end of the array. -/
theorem decodeItems_items
    (h : List.Forall₂ (fun v x => StartsItem v.chars ∧ Decodes read v.chars x) vs xs) (fuel : Nat)
    (hf : vs.length < fuel) (done : List α) (tail : List Char) (place : Place) :
    ∃ p, decodeItems read fuel done
      ⟨(if done.isEmpty then itemsText vs else moreItems vs) ++ ']' :: tail, place⟩ =
        .ok (done.reverse ++ xs, ⟨tail, p⟩) := by
  induction h generalizing done fuel place with
  | nil =>
    obtain ⟨fuel, rfl⟩ : ∃ n, fuel = n + 1 := ⟨fuel - 1, by simp at hf; omega⟩
    obtain ⟨p, hp⟩ := listEnd_eq tail place
    refine ⟨p, ?_⟩
    simp [decodeItems, itemsText, moreItems, itemAhead_end, hp, bind, Except.bind, pure,
      Except.pure]
  | @cons v x vs xs hx _ ih =>
    obtain ⟨hstart, hread⟩ := hx
    obtain ⟨fuel, rfl⟩ : ∃ n, fuel = n + 1 := ⟨fuel - 1, by simp at hf; omega⟩
    -- whether or not a comma stands in front, the item is what comes next
    have hahead : ∃ p, itemAhead done.isEmpty
        ⟨(if done.isEmpty then itemsText (v :: vs) else moreItems (v :: vs)) ++ ']' :: tail,
          place⟩ = .ok (true, ⟨v.chars ++ (moreItems vs ++ ']' :: tail), p⟩) := by
      cases hd : done.isEmpty with
      | true =>
        refine ⟨place, ?_⟩
        rw [if_pos rfl, itemsText_cons, List.append_assoc]
        exact itemAhead_first hstart _ _
      | false =>
        obtain ⟨p, hp⟩ := itemAhead_comma hstart (moreItems vs ++ ']' :: tail) place
        refine ⟨p, ?_⟩
        rw [if_neg (by simp), moreItems, itemsText_cons, ← hp]
        simp
    obtain ⟨p₁, h₁⟩ := hahead
    obtain ⟨p₂, h₂⟩ := hread _ p₁ (closed_moreItems vs tail)
    obtain ⟨p₃, h₃⟩ := ih fuel (by simpa using hf) (x :: done) p₂
    refine ⟨p₃, ?_⟩
    rw [decodeItems, h₁]
    simp only [bind, Except.bind, if_true, h₂]
    simpa using h₃

theorem length_le_moreItems (vs : List Json) : vs.length ≤ (moreItems vs).length := by
  induction vs with
  | nil => simp
  | cons v r ih =>
    rw [moreItems, itemsText_cons, List.length_cons, List.length_cons, List.length_append]
    omega

theorem length_le_itemsText (vs : List Json) : vs.length ≤ (itemsText vs).length + 1 := by
  cases vs with
  | nil => simp
  | cons v r =>
    have := length_le_moreItems r
    rw [itemsText_cons, List.length_cons, List.length_append]
    omega

/-- An array is read when each of its items is. -/
theorem decodeList_array
    (h : List.Forall₂ (fun v x => StartsItem v.chars ∧ Decodes read v.chars x) vs xs) :
    Decodes (decodeList read) (chars (.array vs)) xs := by
  intro rest place _
  have htext : chars (.array vs) ++ rest = '[' :: (itemsText vs ++ ']' :: rest) := by
    simp [chars]
  have hlen := length_le_itemsText vs
  obtain ⟨p, hp⟩ := decodeItems_items h (('[' :: (itemsText vs ++ ']' :: rest)).length + 1)
    (by simp; omega) [] rest (place.next '[')
  refine ⟨p, ?_⟩
  rw [htext]
  unfold decodeList
  rw [Cursor.token_cons _ _ (by decide)]
  simpa [bind, Except.bind, Cursor.next] using hp

end Items

/-! ## Objects -/

/-- An entry is read, from the colon behind its key on. -/
def ReadsEntry {σ : Type} (step : σ → String → Decoder σ) (s : σ) (key : String) (v : Json)
    (s' : σ) : Prop :=
  Decodes (step s key) (':' :: v.chars) s'

/-- The entries are read one after the other. -/
def ReadsEntries {σ : Type} (step : σ → String → Decoder σ) : σ → List (String × Json) → σ → Prop
  | s, [], s' => s = s'
  | s, (key, v) :: r, s' => ∃ t, ReadsEntry step s key v t ∧ ReadsEntries step t r s'

theorem readsEntries_append {σ : Type} {step : σ → String → Decoder σ} {s t u : σ}
    {xs ys : List (String × Json)} (hx : ReadsEntries step s xs t) (hy : ReadsEntries step t ys u) :
    ReadsEntries step s (xs ++ ys) u := by
  induction xs generalizing s with
  | nil =>
    subst hx
    exact hy
  | cons x xs ih =>
    obtain ⟨m, hm, hx⟩ := hx
    exact ⟨m, hm, ih hx⟩

/-- The entries behind another one, the comma in front. -/
def moreEntries : List (String × Json) → List Char
  | [] => []
  | e :: r => ',' :: entriesText (e :: r)

theorem entriesText_cons (k : String) (v : Json) (r : List (String × Json)) :
    entriesText ((k, v) :: r) = stringText k ++ ':' :: v.chars ++ moreEntries r := by
  cases r with
  | nil => simp [entriesText, moreEntries]
  | cons e r => simp [entriesText, moreEntries]

theorem closed_moreEntries (es : List (String × Json)) (tail : List Char) :
    Closed (moreEntries es ++ '\x7d' :: tail) := by
  cases es with
  | nil => exact closed_cons (.inr (.inr rfl))
  | cons e r => exact closed_cons (.inl rfl)

theorem keyAhead_end (first : Bool) (tail : List Char) (place : Place) :
    keyAhead first ⟨'\x7d' :: tail, place⟩ = .ok (false, ⟨'\x7d' :: tail, place⟩) := by
  unfold keyAhead
  rw [Cursor.settle_cons _ _ (by decide)]
  rfl

theorem keyAhead_first (rest : List Char) (place : Place) :
    keyAhead true ⟨'"' :: rest, place⟩ = .ok (true, ⟨'"' :: rest, place⟩) := by
  unfold keyAhead
  rw [Cursor.settle_cons _ _ (by decide)]
  rfl

theorem keyAhead_comma (rest : List Char) (place : Place) :
    ∃ p, keyAhead false ⟨',' :: '"' :: rest, place⟩ = .ok (true, ⟨'"' :: rest, p⟩) := by
  refine ⟨place.next ',', ?_⟩
  unfold keyAhead
  rw [Cursor.settle_cons _ _ (by decide)]
  simp [Cursor.next, Cursor.settle_cons (h := '"') _ _ (by decide)]

theorem readColon_cons (rest : List Char) (place : Place) :
    ∃ p, readColon ⟨':' :: rest, place⟩ = .ok ⟨rest, p⟩ := by
  refine ⟨place.next ':', ?_⟩
  unfold readColon
  rw [Cursor.settle_cons _ _ (by decide)]
  rfl

theorem objectEnd_eq (tail : List Char) (place : Place) :
    ∃ p, objectEnd ⟨'\x7d' :: tail, place⟩ = .ok ⟨tail, p⟩ := by
  refine ⟨place.next '\x7d', ?_⟩
  unfold objectEnd
  rw [Cursor.settle_cons _ _ (by decide)]
  rfl

/-- The entries that are left are read, up to the end of the object. -/
theorem decodeEntries_entries {σ : Type} {step : σ → String → Decoder σ}
    (entries : List (String × Json)) {s s' : σ} (h : ReadsEntries step s entries s') (fuel : Nat)
    (hf : entries.length < fuel) (first : Bool) (tail : List Char) (place : Place) :
    ∃ p, decodeEntries step fuel first s
      ⟨(if first then entriesText entries else moreEntries entries) ++ '\x7d' :: tail, place⟩ =
      .ok (s', ⟨'\x7d' :: tail, p⟩) := by
  induction entries generalizing s fuel first place with
  | nil =>
    obtain ⟨fuel, rfl⟩ : ∃ n, fuel = n + 1 := ⟨fuel - 1, by simp at hf; omega⟩
    obtain rfl : s = s' := h
    refine ⟨place, ?_⟩
    simp [decodeEntries, entriesText, moreEntries, keyAhead_end, bind, Except.bind, pure,
      Except.pure]
  | cons e entries ih =>
    obtain ⟨fuel, rfl⟩ : ∃ n, fuel = n + 1 := ⟨fuel - 1, by simp at hf; omega⟩
    obtain ⟨key, v⟩ := e
    obtain ⟨t, hstep, hrest⟩ := h
    -- the quote of the key comes next, whether or not a comma stands in front
    have htext : entriesText ((key, v) :: entries) ++ '\x7d' :: tail =
        '"' :: (key.toList.flatMap escapedChar ++
          '"' :: (':' :: v.chars ++ (moreEntries entries ++ '\x7d' :: tail))) := by
      rw [entriesText_cons, List.append_assoc, List.append_assoc, stringText_append]
    have hahead : ∃ p, keyAhead first
        ⟨(if first then entriesText ((key, v) :: entries)
          else moreEntries ((key, v) :: entries)) ++ '\x7d' :: tail, place⟩ =
        .ok (true, ⟨'"' :: (key.toList.flatMap escapedChar ++
          '"' :: (':' :: v.chars ++ (moreEntries entries ++ '\x7d' :: tail))), p⟩) := by
      cases first with
      | true =>
        refine ⟨place, ?_⟩
        rw [if_pos rfl, htext]
        exact keyAhead_first _ _
      | false =>
        rw [if_neg (by simp), moreEntries, List.cons_append, htext]
        exact keyAhead_comma _ _
    obtain ⟨p₁, h₁⟩ := hahead
    obtain ⟨p₂, h₂⟩ := readStringBody_chars key
      (':' :: v.chars ++ (moreEntries entries ++ '\x7d' :: tail)) (p₁.next '"')
    obtain ⟨p₃, h₃⟩ := hstep _ p₂ (closed_moreEntries entries tail)
    obtain ⟨p₄, h₄⟩ := ih hrest fuel (by simpa using hf) false p₃
    refine ⟨p₄, ?_⟩
    rw [decodeEntries, h₁]
    simp only [bind, Except.bind, if_true, Cursor.next, h₂, h₃]
    simpa using h₄

theorem length_le_moreEntries (es : List (String × Json)) :
    es.length ≤ (moreEntries es).length := by
  induction es with
  | nil => simp
  | cons e r ih =>
    rw [moreEntries, entriesText_cons, List.length_cons, List.length_cons, List.length_append]
    omega

theorem length_le_entriesText (es : List (String × Json)) :
    es.length ≤ (entriesText es).length + 1 := by
  cases es with
  | nil => simp
  | cons e r =>
    have := length_le_moreEntries r
    rw [entriesText_cons, List.length_cons, List.length_append]
    omega

theorem object_append (entries : List (String × Json)) (rest : List Char) :
    chars (.object entries) ++ rest = '\x7b' :: (entriesText entries ++ '\x7d' :: rest) := by
  simp [chars]

/-- The entries of an object are read with the fuel that its text gives. -/
theorem decodeEntries_object {σ : Type} {step : σ → String → Decoder σ}
    {entries : List (String × Json)} {s s' : σ} (h : ReadsEntries step s entries s')
    (rest : List Char) (place : Place) :
    ∃ p, decodeEntries step (('\x7b' :: (entriesText entries ++ '\x7d' :: rest)).length + 1) true s
      ⟨entriesText entries ++ '\x7d' :: rest, place⟩ = .ok (s', ⟨'\x7d' :: rest, p⟩) := by
  have hlen := length_le_entriesText entries
  have := decodeEntries_entries entries h
    (('\x7b' :: (entriesText entries ++ '\x7d' :: rest)).length + 1)
    (by simp; omega) true rest place
  simpa using this

/-- An object is read when each of its values is, each put where its key stands first. -/
theorem decodeMap_object {σ α : Type} {read : Decoder α} {es : List (String × Json)}
    {xs : List (String × α)}
    (h : List.Forall₂ (fun e x => e.1 = x.1 ∧ Decodes read e.2.chars x.2) es xs)
    (put : String → α → σ → σ) (empty : σ) :
    Decodes (decodeMap read put empty) (chars (.object es))
      (xs.foldl (fun s x => put x.1 x.2 s) empty) := by
  intro rest place _
  let step : σ → String → Decoder σ := fun s key c => do
    let found ← read (← readColon c)
    return (put key found.1 s, found.2)
  have hreads : ReadsEntries step empty es (xs.foldl (fun s x => put x.1 x.2 s) empty) := by
    generalize empty = s
    induction h generalizing s with
    | nil => rfl
    | @cons e x es xs hx _ ih =>
      obtain ⟨key, v⟩ := e
      obtain ⟨rfl, hread⟩ := hx
      refine ⟨put x.1 x.2 s, fun rest place hc => ?_, ih _⟩
      obtain ⟨p₁, h₁⟩ := readColon_cons (v.chars ++ rest) place
      obtain ⟨p₂, h₂⟩ := hread rest p₁ hc
      refine ⟨p₂, ?_⟩
      simp only [step, List.cons_append, h₁, h₂, bind, Except.bind, pure, Except.pure]
  obtain ⟨p₁, h₁⟩ := decodeEntries_object hreads rest (place.next '\x7b')
  obtain ⟨p₂, h₂⟩ := objectEnd_eq rest p₁
  refine ⟨p₂, ?_⟩
  rw [object_append]
  unfold decodeMap
  rw [Cursor.token_cons _ _ (by decide)]
  simp only [step, bind, Except.bind, pure, Except.pure] at h₁
  simp only [bind, Except.bind, if_true, Cursor.next, pure, Except.pure, h₁, h₂]

/-- An object of counts is read back. -/
theorem decodeMap_counts {σ : Type} (put : String → UInt64 → σ → σ) (empty : σ)
    (counts : List (String × UInt64)) :
    Decodes (decodeMap decodeCount put empty)
      (chars (.object (counts.map (fun e => (e.1, nat e.2.toNat)))))
      (counts.foldl (fun s e => put e.1 e.2 s) empty) := by
  refine decodeMap_object ?_ put empty
  rw [List.forall₂_map_left_iff, List.forall₂_same]
  exact fun e _ => ⟨rfl, decodeCount_nat e.2⟩

/-! ## Records -/

/-- A value is read into its slot, when that was not filled before. -/
theorem decodeSlot_found {σ : Type} {slots : List (Slot σ)} {t : Slot σ} {s s' : σ} {key : String}
    {v : Json} (ht : slots.find? (fun t => t.name == key) = some t) (hfree : t.isFilled s = false)
    (hread : Decodes (t.read s) v.chars s') : ReadsEntry (decodeSlot slots) s key v s' := by
  intro rest place hc
  obtain ⟨p₁, h₁⟩ := readColon_cons (v.chars ++ rest) place
  obtain ⟨p₂, h₂⟩ := hread rest p₁ hc
  refine ⟨p₂, ?_⟩
  simp only [decodeSlot, ht, hfree, List.cons_append, h₁, h₂, bind, Except.bind,
    Bool.false_eq_true, if_false]

/-- A record is read back from its object when all of its entries are. -/
theorem decodeRecord_object {σ α : Type} {title : String} {slots : List (Slot σ)} {empty s : σ}
    {finish : Bool → σ → Except Issue α} {entries : List (String × Json)} {a : α}
    (h : ReadsEntries (decodeSlot slots) empty entries s) (hfinish : finish false s = .ok a) :
    Decodes (decodeRecord title slots empty finish) (chars (.object entries)) a := by
  intro rest place _
  obtain ⟨p₁, h₁⟩ := decodeEntries_object h rest (place.next '\x7b')
  obtain ⟨p₂, h₂⟩ := objectEnd_eq rest p₁
  refine ⟨p₂, ?_⟩
  rw [object_append]
  unfold decodeRecord
  rw [Cursor.token_cons _ _ (by decide)]
  simp only [bind, Except.bind, if_true, Cursor.next]
  rw [show decodeEntries (decodeSlot slots) _ true empty _ = _ from h₁]
  simp only [hfinish, h₂, pure, Except.pure]

/-! ## Whole texts -/

/-- What is read off a text with nothing behind it is its value. -/
theorem Decodes.decode {α : Type} {read : Decoder α} {v : Json} {a : α}
    (h : Decodes read v.chars a) : decode read v.render = .ok a := by
  obtain ⟨p, hp⟩ := h [] ⟨1, 0⟩ closed_nil
  rw [List.append_nil] at hp
  unfold Json.decode
  rw [render, String.toList_ofList, Cursor.start, hp]
  rfl

end CodeSurvey.Json
