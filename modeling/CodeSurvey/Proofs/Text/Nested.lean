-- Texts that a reader of brackets and quotes leaves as it came to them, and cutting
-- a text at the separators outside: nothing is lost, no part is cut again, texts that
-- end outside are cut apart, and so level parts without a separator outside are found
-- again.
import CodeSurvey.Text.Nested

namespace CodeSurvey.Text

/-! ## Level texts -/

section Level

variable {σ : Type} {next? : σ → Char → Option σ} {start : σ} {s t : List Char}

/-- A reader that has no way on below its start comes back to the start at the end of the text. -/
def ComesBack (next? : σ → Char → Option σ) (start : σ) (s : List Char) : Prop :=
  s.foldlM next? start = some start

instance [DecidableEq σ] : Decidable (ComesBack next? start s) :=
  inferInstanceAs (Decidable (_ = _))

theorem ComesBack.nil : ComesBack next? start [] := rfl

theorem ComesBack.append (hs : ComesBack next? start s) (ht : ComesBack next? start t) :
    ComesBack next? start (s ++ t) := by
  unfold ComesBack at *
  rw [List.foldlM_append, hs]
  exact ht

theorem ComesBack.of_forall (h : ∀ c ∈ s, next? start c = some start) :
    ComesBack next? start s := by
  induction s with
  | nil => rfl
  | cons c s ih =>
    obtain ⟨hc, hs⟩ := List.forall_mem_cons.1 h
    unfold ComesBack at *
    rw [List.foldlM_cons, hc]
    exact ih hs

/-- The character stands at a place of the text where the reader is at its start. -/
def StandsOutside (next? : σ → Char → Option σ) (start : σ) (c : Char) (s : List Char) : Prop :=
  ∃ a b, s = a ++ c :: b ∧ ComesBack next? start a

theorem StandsOutside.of_cons {c d : Char} (h : StandsOutside next? start c (d :: s))
    (hd : next? start d = some start) (hne : c ≠ d) : StandsOutside next? start c s := by
  obtain ⟨a, b, heq, ha⟩ := h
  cases a with
  | nil => exact absurd (List.cons.inj heq).1.symm hne
  | cons x a =>
    obtain ⟨rfl, rfl⟩ := List.cons.inj heq
    rw [ComesBack, List.foldlM_cons, hd] at ha
    exact ⟨a, b, rfl, ha⟩

theorem standsOutside_iff {c : Char} : StandsOutside next? start c s ↔
    ∃ k < s.length, s[k]? = some c ∧ ComesBack next? start (s.take k) := by
  constructor
  · rintro ⟨a, b, rfl, ha⟩
    exact ⟨a.length, by simp, by simp, by simpa using ha⟩
  · rintro ⟨k, -, hc, ha⟩
    obtain ⟨hk, rfl⟩ := List.getElem?_eq_some_iff.1 hc
    exact ⟨s.take k, s.drop (k + 1), by simp, ha⟩

instance [DecidableEq σ] {c : Char} : Decidable (StandsOutside next? start c s) :=
  decidable_of_iff' _ standsOutside_iff

end Level

/-- One character further, unless it closes a bracket that is not open. -/
def Nesting.next? (n : Nesting) (c : Char) : Option Nesting :=
  if n.quote = none ∧ n.depth = 0 ∧ isClosing c = true then none else some (n.next c)

/-- All brackets and quotes that open in the text close in it, and no others do. -/
def IsLevel (s : List Char) : Prop := ComesBack Nesting.next? Nesting.outside s

instance (s : List Char) : Decidable (IsLevel s) := inferInstanceAs (Decidable (ComesBack _ _ _))

/-- A quote mark or a bracket. -/
def isMark (c : Char) : Bool := isQuoteMark c || isOpening c || isClosing c

/-- The quote marks and brackets. -/
def marks : List Char :=
  ['"', '\'', Char.ofNat 0x60, '(', '[', '\x7b', '<', ')', ']', '\x7d', '>']

theorem mem_marks {c : Char} (h : isMark c = true) : c ∈ marks := by
  simp only [isMark, isQuoteMark, isOpening, isClosing, Bool.or_eq_true, decide_eq_true_eq] at h
  have hback : c.toNat = 0x60 → c = Char.ofNat 0x60 := fun heq => by rw [← heq, Char.ofNat_toNat]
  simp only [marks, List.mem_cons]
  grind

/-- A character of a kind to which no mark and none of the signs belongs. -/
theorem plain_of_kind {p : Char → Bool} {c : Char} (h : p c = true) (signs : List Char)
    (hkind : (marks ++ signs).any p = false) : isMark c = false ∧ c ∉ signs := by
  have hne : c ∉ marks ++ signs := fun hmem => List.any_eq_false.1 hkind c hmem h
  rw [List.mem_append, not_or] at hne
  exact ⟨Bool.eq_false_iff.2 fun hmark => hne.1 (mem_marks hmark), hne.2⟩

theorem Nesting.next_of_not_mark {n : Nesting} {c : Char} (hquote : n.quote = none)
    (h : isMark c = false) : n.next c = n := by
  simp only [isMark, Bool.or_eq_false_iff] at h
  simp [Nesting.next, hquote, h]

theorem IsLevel.of_not_mark {s : List Char} (h : ∀ c ∈ s, isMark c = false) : IsLevel s := by
  refine .of_forall fun c hc => ?_
  have hc := h c hc
  rw [Nesting.next?, Nesting.next_of_not_mark rfl hc, if_neg]
  simp only [isMark, Bool.or_eq_false_iff] at hc
  simp [hc]

theorem foldl_next_of_foldlM {s : List Char} {n m : Nesting}
    (h : s.foldlM Nesting.next? n = some m) : s.foldl Nesting.next n = m := by
  induction s generalizing n with
  | nil => exact Option.some.inj h
  | cons c s ih =>
    rw [List.foldlM_cons] at h
    obtain ⟨n', hn', h⟩ := Option.bind_eq_some_iff.1 h
    unfold Nesting.next? at hn'
    split at hn'
    · cases hn'
    · rw [List.foldl_cons, Option.some.inj hn']
      exact ih h

/-! ## Cutting -/

variable {sep : Char} {n : Nesting} {s t : List Char}

theorem partsFrom_cons_cut {c : Char} {r : List Char} (h : n.cutsAt sep c = true) :
    partsFrom sep n (c :: r) =
      ([], (partsFrom sep (n.next c) r).1 :: (partsFrom sep (n.next c) r).2) := by
  rw [partsFrom]
  simp [h]

theorem partsFrom_cons_keep {c : Char} {r : List Char} (h : n.cutsAt sep c = false) :
    partsFrom sep n (c :: r) =
      (c :: (partsFrom sep (n.next c) r).1, (partsFrom sep (n.next c) r).2) := by
  rw [partsFrom]
  simp [h]

theorem splitOutside_eq (sep : Char) (s : List Char) : splitOutside sep s =
    (partsFrom sep .outside s).1 :: (partsFrom sep .outside s).2 := rfl

/-- No separator of the text stands outside. -/
def IsWhole (sep : Char) (s : List Char) : Prop := splitOutside sep s = [s]

instance : Decidable (IsWhole sep s) := inferInstanceAs (Decidable (_ = _))

/-- Joined with the separator, the parts are the text. -/
theorem intercalate_splitOutside (sep : Char) (s : List Char) :
    [sep].intercalate (splitOutside sep s) = s := by
  have hparts : ∀ n : Nesting,
      [sep].intercalate ((partsFrom sep n s).1 :: (partsFrom sep n s).2) = s := by
    induction s with
    | nil => exact fun _ => rfl
    | cons c r ih =>
      intro n
      cases hcut : n.cutsAt sep c with
      | true =>
        have hc : c = sep := by
          simp only [Nesting.cutsAt, Bool.and_eq_true, decide_eq_true_eq] at hcut
          exact hcut.1.2
        rw [partsFrom_cons_cut hcut, List.intercalate_cons_cons, ih, hc]
        rfl
      | false => rw [partsFrom_cons_keep hcut, List.intercalate_cons_cons_left, ih]
  exact hparts .outside

/-- A text without a separator outside belongs to the first part of what it begins. -/
theorem partsFrom_append (h : (partsFrom sep n s).2 = []) (t : List Char) :
    partsFrom sep n (s ++ t) = (s ++ (partsFrom sep (s.foldl Nesting.next n) t).1,
      (partsFrom sep (s.foldl Nesting.next n) t).2) := by
  induction s generalizing n with
  | nil => rfl
  | cons c s ih =>
    cases hcut : n.cutsAt sep c with
    | true => rw [partsFrom_cons_cut hcut] at h; cases h
    | false =>
      rw [partsFrom_cons_keep hcut] at h
      rw [List.cons_append, partsFrom_cons_keep hcut, ih h]
      rfl

theorem IsWhole.others (h : IsWhole sep s) : (partsFrom sep .outside s).2 = [] :=
  (List.cons.inj h).2

theorem IsWhole.partsFrom_append (h : IsWhole sep s) (hlevel : IsLevel s) (t : List Char) :
    partsFrom sep .outside (s ++ t) =
      (s ++ (partsFrom sep .outside t).1, (partsFrom sep .outside t).2) := by
  rw [Text.partsFrom_append h.others, foldl_next_of_foldlM hlevel]

theorem IsWhole.append (hs : IsWhole sep s) (hlevel : IsLevel s) (ht : IsWhole sep t) :
    IsWhole sep (s ++ t) := by
  rw [IsWhole, splitOutside_eq, hs.partsFrom_append hlevel, ht.others, (List.cons.inj ht).1]

theorem IsWhole.nil : IsWhole sep [] := rfl

theorem IsWhole.of_not_mem (h : sep ∉ s) : IsWhole sep s := by
  have hparts : ∀ n : Nesting, partsFrom sep n s = (s, []) := by
    induction s with
    | nil => exact fun _ => rfl
    | cons c s ih =>
      intro n
      have hc : c ≠ sep := fun hc => h (hc ▸ List.mem_cons_self)
      have hcut : n.cutsAt sep c = false := by simp [Nesting.cutsAt, hc]
      rw [partsFrom_cons_keep hcut, ih fun hs => h (List.mem_cons_of_mem c hs)]
  rw [IsWhole, splitOutside_eq, hparts]

/-! ## Where texts end -/

/-- Outside of quotes no backslash waits for the character behind it. -/
def Nesting.Settled (n : Nesting) : Prop := n.quote = none → n.escaped = false

theorem Nesting.Settled.next (h : n.Settled) (c : Char) : (n.next c).Settled := by
  unfold Nesting.Settled at h
  unfold Nesting.next
  split
  · rename_i q hq
    by_cases hescaped : n.escaped = true
    · simp [Nesting.Settled, hescaped]
    · by_cases hback : c = '\\'
      · simp [Nesting.Settled, hescaped, hback, hq]
      · simp only [hescaped, hback, if_false, Bool.false_eq_true]
        split <;> simp [Nesting.Settled, hescaped]
  · rename_i hq
    have hescaped := h hq
    split
    · simp [Nesting.Settled]
    · split
      · simp [Nesting.Settled, hescaped]
      · split <;> simp [Nesting.Settled, hescaped]

theorem Nesting.Settled.foldl (h : n.Settled) (s : List Char) :
    (s.foldl Nesting.next n).Settled := by
  induction s generalizing n with
  | nil => exact h
  | cons c s ih => exact ih (h.next c)

theorem Nesting.Settled.eq_outside (h : n.Settled) (hquote : n.quote = none)
    (hdepth : n.depth = 0) : n = .outside := by
  obtain ⟨quote, escaped, depth⟩ := n
  obtain rfl : quote = none := hquote
  obtain rfl : depth = 0 := hdepth
  obtain rfl : escaped = false := h rfl
  rfl

theorem Nesting.settled_outside : Nesting.outside.Settled := fun _ => rfl

/-- At the end of the text no quote and no bracket is open. A bracket that closes without being
open counts for nothing. -/
def EndsOutside (s : List Char) : Prop :=
  (s.foldl Nesting.next .outside).quote = none ∧ (s.foldl Nesting.next .outside).depth = 0

instance : DecidablePred EndsOutside := fun s =>
  inferInstanceAs (Decidable (_ ∧ (s.foldl Nesting.next .outside).depth = 0))

theorem EndsOutside.foldl (h : EndsOutside s) : s.foldl Nesting.next .outside = .outside :=
  (Nesting.settled_outside.foldl s).eq_outside h.1 h.2

theorem IsLevel.endsOutside (h : IsLevel s) : EndsOutside s := by
  rw [EndsOutside, foldl_next_of_foldlM h]
  exact ⟨rfl, rfl⟩

/-! ## Cutting in two -/

theorem cutsAt_iff {c : Char} : n.cutsAt sep c = true ↔
    n.quote = none ∧ n.depth = 0 ∧ c = sep ∧ isMark c = false := by
  simp [Nesting.cutsAt, isMark, and_assoc]

theorem Nesting.Settled.eq_of_cutsAt {c : Char} (h : n.Settled) (hcut : n.cutsAt sep c = true) :
    n = .outside ∧ n.next c = .outside := by
  obtain ⟨hquote, hdepth, -, hmark⟩ := cutsAt_iff.1 hcut
  have hn := h.eq_outside hquote hdepth
  exact ⟨hn, by rw [Nesting.next_of_not_mark hquote hmark, hn]⟩

/-- A separator that cuts ends the parts of what stands before it, and those of what stands
behind it follow. -/
theorem partsFrom_append_cons (h : (s.foldl Nesting.next n).cutsAt sep sep = true)
    (t : List Char) : partsFrom sep n (s ++ sep :: t) =
      ((partsFrom sep n s).1, (partsFrom sep n s).2 ++
        (partsFrom sep ((s.foldl Nesting.next n).next sep) t).1 ::
          (partsFrom sep ((s.foldl Nesting.next n).next sep) t).2) := by
  induction s generalizing n with
  | nil => exact partsFrom_cons_cut h
  | cons c s ih =>
    rw [List.cons_append, List.foldl_cons]
    cases hcut : n.cutsAt sep c with
    | true => rw [partsFrom_cons_cut hcut, partsFrom_cons_cut hcut, ih h, List.cons_append]
    | false => rw [partsFrom_cons_keep hcut, partsFrom_cons_keep hcut, ih h]

/-- Where a text is cut, a separator stands outside. -/
theorem exists_cut (h : (partsFrom sep n s).2 ≠ []) :
    ∃ a b, s = a ++ sep :: b ∧ (a.foldl Nesting.next n).cutsAt sep sep = true := by
  induction s generalizing n with
  | nil => exact absurd rfl h
  | cons c s ih =>
    cases hcut : n.cutsAt sep c with
    | true =>
      obtain rfl : c = sep := (cutsAt_iff.1 hcut).2.2.1
      exact ⟨[], s, rfl, hcut⟩
    | false =>
      rw [partsFrom_cons_keep hcut] at h
      obtain ⟨a, b, rfl, hab⟩ := ih h
      exact ⟨c :: a, b, rfl, hab⟩

/-- A text that ends outside has its own parts before a separator. -/
theorem splitOutside_append (h : EndsOutside s) (hsep : isMark sep = false) (t : List Char) :
    splitOutside sep (s ++ sep :: t) = splitOutside sep s ++ splitOutside sep t := by
  have hcut : (s.foldl Nesting.next .outside).cutsAt sep sep = true :=
    cutsAt_iff.2 ⟨h.1, h.2, rfl, hsep⟩
  rw [splitOutside_eq, partsFrom_append_cons hcut, h.foldl, Nesting.next_of_not_mark rfl hsep,
    splitOutside_eq sep s, splitOutside_eq sep t, List.cons_append]

/-- A text is whole when every separator in it stands behind a text that does not end outside. A
mark never separates. -/
theorem isWhole_iff : IsWhole sep s ↔
    ∀ a b, s = a ++ sep :: b → EndsOutside a → isMark sep = true := by
  constructor
  · rintro h a b rfl ha
    cases hsep : isMark sep with
    | true => rfl
    | false =>
      have hlength := congrArg List.length h
      rw [splitOutside_append ha hsep] at hlength
      simp [splitOutside_eq] at hlength
  · intro h
    have hnil : (partsFrom sep .outside s).2 = [] := by
      refine Decidable.byContradiction fun hcuts => ?_
      obtain ⟨a, b, hab, hcut⟩ := exists_cut hcuts
      obtain ⟨hquote, hdepth, -, hmark⟩ := cutsAt_iff.1 hcut
      rw [h a b hab ⟨hquote, hdepth⟩] at hmark
      cases hmark
    have hjoined := intercalate_splitOutside sep s
    rw [splitOutside_eq, hnil, List.intercalate_singleton] at hjoined
    rw [IsWhole, splitOutside_eq, hnil, hjoined]

/-- The first part is not cut again where it came from, nor are the others outside. -/
theorem partsFrom_whole (sep : Char) (hn : n.Settled) (s : List Char) :
    partsFrom sep n (partsFrom sep n s).1 = ((partsFrom sep n s).1, []) ∧
      ∀ part ∈ (partsFrom sep n s).2, IsWhole sep part := by
  induction s generalizing n with
  | nil => exact ⟨rfl, by simp [partsFrom]⟩
  | cons c s ih =>
    obtain ⟨hfirst, hothers⟩ := ih (hn.next c)
    cases hcut : n.cutsAt sep c with
    | true =>
      rw [partsFrom_cons_cut hcut]
      refine ⟨rfl, fun part hpart => ?_⟩
      rcases List.mem_cons.1 hpart with rfl | hpart
      · -- the part begins behind the separator, where the reader is outside again
        rw [(hn.eq_of_cutsAt hcut).2] at hfirst ⊢
        rw [IsWhole, splitOutside_eq, hfirst]
      · exact hothers part hpart
    | false =>
      rw [partsFrom_cons_keep hcut]
      exact ⟨by rw [partsFrom_cons_keep hcut, hfirst], hothers⟩

theorem isWhole_of_mem_splitOutside {part : List Char} (h : part ∈ splitOutside sep s) :
    IsWhole sep part := by
  obtain ⟨hfirst, hothers⟩ := partsFrom_whole sep Nesting.settled_outside s
  rcases List.mem_cons.1 h with rfl | h
  · rw [IsWhole, splitOutside_eq, hfirst]
  · exact hothers part h

/-- Cutting loses nothing: joined with the separator, the parts are the text. It is complete: a
text stays in one part exactly where no separator in it stands outside, and no part is cut again.
And what stands behind a separator outside is cut as if it stood alone. -/
theorem splitOutside_is_lossless (sep : Char) :
    (∀ s, [sep].intercalate (splitOutside sep s) = s) ∧
      (∀ s, ∀ part ∈ splitOutside sep s, splitOutside sep part = [part]) ∧
      (∀ s, splitOutside sep s = [s] ↔
        ∀ a b, s = a ++ sep :: b → EndsOutside a → isMark sep = true) ∧
      ∀ a b, EndsOutside a → isMark sep = false →
        splitOutside sep (a ++ sep :: b) = splitOutside sep a ++ splitOutside sep b :=
  ⟨intercalate_splitOutside sep, fun _ _ hpart => isWhole_of_mem_splitOutside hpart,
    fun _ => isWhole_iff, fun _ b ha hsep => splitOutside_append ha hsep b⟩

/-- A bracket that closes without being open, a quote with an escaped mark in it, and a rest whose
bracket never closes. -/
theorem splitOutside_is_lossless_of_ragged :
    let a := "a], b: Dict[str, 'it\\'s, x']".toList
    let b := " (c, d".toList
    let part := " b: Dict[str, 'it\\'s, x']".toList
    EndsOutside a ∧ isMark ',' = false ∧
      splitOutside ',' (a ++ ',' :: b) = splitOutside ',' a ++ splitOutside ',' b ∧
      part ∈ splitOutside ',' a ∧ splitOutside ',' part = [part] ∧
      (∀ c d, b = c ++ ',' :: d → EndsOutside c → isMark ',' = true) ∧
      [','].intercalate (splitOutside ',' b) = b := by
  intro a b part
  obtain ⟨hjoin, hparts, hwhole, happend⟩ := splitOutside_is_lossless ','
  have hends : EndsOutside a := by decide +kernel
  have hpart : part ∈ splitOutside ',' a := by decide +kernel
  exact ⟨hends, rfl, happend a b hends rfl, hpart, hparts a part hpart,
    (hwhole b).1 (by decide +kernel), hjoin b⟩

/-! ## Level parts -/

/-- A separator after a level text cuts. -/
theorem splitOutside_append_cons (h : IsWhole sep s) (hlevel : IsLevel s)
    (hsep : isMark sep = false) (t : List Char) :
    splitOutside sep (s ++ sep :: t) = s :: splitOutside sep t := by
  rw [splitOutside_append hlevel.endsOutside hsep, h, List.singleton_append]

/-- Level parts without a separator outside are found again when they are joined with it. -/
theorem splitOutside_intercalate {parts : List (List Char)} (hne : parts ≠ [])
    (h : ∀ part ∈ parts, IsLevel part ∧ IsWhole sep part) (hsep : isMark sep = false) :
    splitOutside sep ([sep].intercalate parts) = parts := by
  induction parts with
  | nil => exact absurd rfl hne
  | cons part parts ih =>
    obtain ⟨⟨hlevel, hwhole⟩, hparts⟩ := List.forall_mem_cons.1 h
    cases parts with
    | nil => rwa [List.intercalate_singleton]
    | cons next parts =>
      rw [List.intercalate_cons_cons, List.append_assoc, List.singleton_append,
        splitOutside_append_cons hwhole hlevel hsep, ih (List.cons_ne_nil _ _) hparts]

/-- A text that begins with a separator is not whole. -/
theorem IsWhole.head?_ne (h : IsWhole sep s) (hsep : isMark sep = false) : s.head? ≠ some sep := by
  cases s with
  | nil => simp
  | cons c s =>
    rintro heq
    obtain rfl := Option.some.inj heq
    have := splitOutside_append_cons IsWhole.nil .nil hsep s
    rw [List.nil_append] at this
    rw [IsWhole, this] at h
    cases (List.cons.inj h).1

end CodeSurvey.Text
