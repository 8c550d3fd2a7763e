-- The lower case of a text. It is its own lower case, in all scripts, and blanks and dots
-- stay where they are: none comes from another character, and none becomes one.
import CodeSurvey.Text.Blank
import CodeSurvey.Text.Casing

namespace CodeSurvey.Text

/-! ## Code points -/

/-- The code points on the row. -/
def Stride.points (r : Stride) : List Nat :=
  (List.range ((r.last - r.first) / r.step + 1)).map fun k => r.first + k * r.step

theorem Stride.mem_points {r : Stride} {n : Nat} (h : r.has n = true) : n ∈ r.points := by
  simp only [has, Bool.and_eq_true, decide_eq_true_eq, beq_iff_eq] at h
  obtain ⟨⟨hfirst, hlast⟩, hstep⟩ := h
  refine List.mem_map.2 ⟨(n - r.first) / r.step, List.mem_range.2 ?_, ?_⟩
  · exact Nat.lt_succ_of_le (Nat.div_le_div_right (by omega))
  · rw [Nat.div_mul_cancel (Nat.dvd_of_mod_eq_zero hstep)]
    omega

/-- The numbers as bits of one number, so that many can be compared at once. -/
def bitsOf (ns : List Nat) : Nat := ns.foldl (fun b n => b ||| 1 <<< n) 0

theorem testBit_bitsOf {ns : List Nat} {n : Nat} (h : n ∈ ns) : (bitsOf ns).testBit n = true := by
  have hall : ∀ b, b.testBit n = true ∨ n ∈ ns →
      (ns.foldl (fun b n => b ||| 1 <<< n) b).testBit n = true := by
    clear h
    induction ns with
    | nil => exact fun b hb => hb.resolve_right List.not_mem_nil
    | cons m ns ih =>
      refine fun b hb => ih _ ?_
      rcases hb with hb | hb
      · exact .inl (by simp [hb])
      · rcases List.mem_cons.1 hb with rfl | hb
        · exact .inl (by simp)
        · exact .inr hb
  exact hall 0 (.inr h)

theorem not_mem_of_bitsOf {ms ns : List Nat} (h : bitsOf ms &&& bitsOf ns = 0) {n : Nat}
    (hm : n ∈ ms) : n ∉ ns := by
  intro hn
  have hboth := Nat.testBit_and (bitsOf ms) (bitsOf ns) n
  rw [h, testBit_bitsOf hm, testBit_bitsOf hn, Nat.zero_testBit] at hboth
  cases hboth

/-- The code points that have a lower case of one other code point. -/
def casedPoints : List Nat := lowerRows.flatMap (·.1.points)

/-- The code points that the dotted capital I and the sigmas leave. -/
def exceptionalPoints : List Nat := [0x69, 0x307, 0x3C2, 0x3C3]

/-- The code points of all lower cases that are not the character itself. -/
def loweredPoints : List Nat := exceptionalPoints ++
  lowerRows.flatMap fun r => r.1.points.map fun n : Nat => ((n : Int) + r.2).toNat

/-- The code points of the blanks and of the dot. -/
def fixedPoints : List Nat := [9, 10, 11, 12, 13, 0x20, 0x2E, 0x85, 0xA0, 0x1680, 0x2000, 0x2001,
  0x2002, 0x2003, 0x2004, 0x2005, 0x2006, 0x2007, 0x2008, 0x2009, 0x200A, 0x2028, 0x2029, 0x202F,
  0x205F, 0x3000]

/-- A lower case of one code point is no blank, no dot and no dotted capital I, and has no other
lower case. -/
theorem loweredPoints_apart :
    bitsOf loweredPoints &&& bitsOf (0x130 :: fixedPoints ++ casedPoints) = 0 := by
  decide +kernel

theorem fixedPoints_apart : bitsOf fixedPoints &&& bitsOf (0x130 :: casedPoints) = 0 := by
  decide +kernel

theorem isValidChar_of_mem_loweredPoints : ∀ n ∈ loweredPoints, n.isValidChar := by
  decide +kernel

/-- A blank or a dot. -/
def isFixed (c : Char) : Bool := isBlank c || c == '.'

theorem isFixed_of_isBlank {c : Char} (h : isBlank c = true) : isFixed c = true := by
  rw [isFixed, h, Bool.true_or]

theorem isFixed_iff {c : Char} : isFixed c = true ↔ c.toNat ∈ fixedPoints := by
  have hdot : c = '.' ↔ c.toNat = 0x2E := Char.toNat_inj.symm
  simp only [isFixed, isBlank, fixedPoints, Bool.or_eq_true, Bool.and_eq_true, decide_eq_true_eq,
    beq_iff_eq, hdot, List.mem_cons, List.not_mem_nil, or_false]
  omega

/-! ## One character -/

/-- The character is its own lower case, at every place in a text. -/
def IsSettled (c : Char) : Prop := lowerOf c = [c] ∧ c.toNat ≠ 0x3A3

theorem lowerOf_of_not_mem {c : Char} (h : c.toNat ∉ 0x130 :: casedPoints) : lowerOf c = [c] := by
  obtain ⟨hdotted, hcased⟩ := not_or.1 (mt List.mem_cons.2 h)
  have hnone : lowerRows.find? (·.1.has c.toNat) = none := by
    refine List.find?_eq_none.2 fun r hr hhas => hcased ?_
    exact List.mem_flatMap.2 ⟨r, hr, Stride.mem_points hhas⟩
  rw [lowerOf, if_neg hdotted, hnone]

theorem sigma_mem_casedPoints : 0x3A3 ∈ casedPoints := by decide +kernel

theorem isSettled_of_not_mem {c : Char} (h : c.toNat ∉ 0x130 :: casedPoints) : IsSettled c :=
  ⟨lowerOf_of_not_mem h, fun hsigma => h (hsigma ▸ .tail _ sigma_mem_casedPoints)⟩

theorem isSettled_of_isFixed {c : Char} (h : isFixed c = true) : IsSettled c :=
  isSettled_of_not_mem (not_mem_of_bitsOf fixedPoints_apart (isFixed_iff.1 h))

theorem isSettled_of_mem_loweredPoints {d : Char} (h : d.toNat ∈ loweredPoints) :
    IsSettled d ∧ isFixed d = false := by
  have hnot := not_mem_of_bitsOf loweredPoints_apart h
  refine ⟨isSettled_of_not_mem fun hin => hnot ?_, Bool.eq_false_iff.2 fun hfixed => hnot ?_⟩
  · rcases List.mem_cons.1 hin with hin | hin
    · exact hin ▸ .head _
    · exact List.mem_append_right _ hin
  · exact List.mem_append_left _ (.tail _ (isFixed_iff.1 hfixed))

/-- What the lower case of a character is made of: something, that is its own lower case, and no
blank or dot in it but the character itself. -/
structure LowersTo (c : Char) (w : List Char) : Prop where
  nonempty : w ≠ []
  settled : ∀ d ∈ w, IsSettled d
  fixed : ∀ d ∈ w, isFixed d = true → d = c

theorem LowersTo.of_lowered {c : Char} {w : List Char} (hw : w ≠ [])
    (h : ∀ d ∈ w, d.toNat ∈ loweredPoints) : LowersTo c w where
  nonempty := hw
  settled := fun d hd => (isSettled_of_mem_loweredPoints (h d hd)).1
  fixed := fun d hd hfixed => by
    rw [(isSettled_of_mem_loweredPoints (h d hd)).2] at hfixed
    cases hfixed

theorem lowersTo_lowerOf {c : Char} (hsigma : c.toNat ≠ 0x3A3) : LowersTo c (lowerOf c) := by
  unfold lowerOf
  split
  · -- the dotted capital I
    have hi : 'i'.toNat ∈ exceptionalPoints := by decide
    have hdot : (Char.ofNat 0x307).toNat ∈ exceptionalPoints := by decide
    have hboth : ∀ d ∈ ['i', Char.ofNat 0x307], d.toNat ∈ exceptionalPoints :=
      List.forall_mem_cons.2 ⟨hi, List.forall_mem_singleton.2 hdot⟩
    exact .of_lowered (List.cons_ne_nil _ _) fun d hd => List.mem_append_left _ (hboth d hd)
  · rename_i hdotted
    split
    · rename_i r d hr
      have hhas := List.find?_some hr
      have hmem : ((c.toNat : Int) + d).toNat ∈ loweredPoints :=
        List.mem_append_right _ <| List.mem_flatMap.2 ⟨(r, d), List.mem_of_find?_eq_some hr,
          List.mem_map.2 ⟨_, Stride.mem_points hhas, rfl⟩⟩
      have hpoint : (Char.ofNat ((c.toNat : Int) + d).toNat).toNat =
          ((c.toNat : Int) + d).toNat := by
        rw [Char.ofNat, dif_pos (isValidChar_of_mem_loweredPoints _ hmem)]
        rfl
      refine .of_lowered (List.cons_ne_nil _ _) fun d' hd => ?_
      rw [List.mem_singleton.1 hd, hpoint]
      exact hmem
    · rename_i hnone
      have hself : lowerOf c = [c] := by rw [lowerOf, if_neg hdotted, hnone]
      refine ⟨List.cons_ne_nil _ _, fun d hd => ?_, fun d hd _ => List.mem_singleton.1 hd⟩
      rw [List.mem_singleton.1 hd]
      exact ⟨hself, hsigma⟩

/-! ## Texts -/

variable {s : List Char}

/-- The lower case of a text is made of that of its first character and that of the others. -/
theorem lowerFrom_cons (earlier : List Char) (c : Char) (s : List Char) :
    ∃ w, LowersTo c w ∧ lowerFrom earlier (c :: s) = w ++ lowerFrom (c :: earlier) s := by
  rw [lowerFrom]
  split
  · have hsigmas : ∀ d ∈ [0x3C2, 0x3C3], (Char.ofNat d).toNat ∈ exceptionalPoints := by
      decide +kernel
    refine ⟨_, .of_lowered (List.cons_ne_nil _ _) fun d hd => List.mem_append_left _ ?_, rfl⟩
    rw [List.mem_singleton.1 hd]
    refine hsigmas _ ?_
    split <;> decide
  · exact ⟨_, lowersTo_lowerOf ‹_›, rfl⟩

theorem isSettled_of_mem_lower {d : Char} (h : d ∈ lower s) : IsSettled d := by
  have hall : ∀ earlier, d ∈ lowerFrom earlier s → IsSettled d := by
    clear h
    induction s with
    | nil => exact fun _ h => nomatch h
    | cons c s ih =>
      intro earlier h
      obtain ⟨w, hw, heq⟩ := lowerFrom_cons earlier c s
      rcases List.mem_append.1 (heq ▸ h) with h | h
      · exact hw.settled d h
      · exact ih _ h
  exact hall [] h

theorem lower_of_settled (h : ∀ c ∈ s, IsSettled c) : lower s = s := by
  have hall : ∀ earlier, lowerFrom earlier s = s := by
    induction s with
    | nil => exact fun _ => rfl
    | cons c s ih =>
      obtain ⟨⟨hc, hsigma⟩, hs⟩ := List.forall_mem_cons.1 h
      intro earlier
      rw [lowerFrom, if_neg hsigma, hc, ih hs]
      rfl
  exact hall []

/-- The lower case of a text is its own lower case. -/
theorem lower_lower (s : List Char) : lower (lower s) = lower s :=
  lower_of_settled fun _ => isSettled_of_mem_lower

/-! ## Ends of texts -/

section Ends

variable {p : Char → Bool}

/-- A text in lower case begins with a blank or a dot only if the text did. -/
theorem head?_lower (hp : ∀ c, p c = true → isFixed c = true) (h : ∀ c ∈ s.head?, p c = false) :
    ∀ d ∈ (lower s).head?, p d = false := by
  cases s with
  | nil => exact fun d hd => nomatch hd
  | cons c s =>
    intro d hd
    obtain ⟨w, hw, heq⟩ := lowerFrom_cons [] c s
    obtain ⟨d', w', rfl⟩ := List.exists_cons_of_ne_nil hw.nonempty
    rw [lower, heq] at hd
    obtain rfl : d' = d := Option.some.inj hd
    refine Bool.eq_false_iff.2 fun hpd => ?_
    obtain rfl := hw.fixed d' (.head _) (hp d' hpd)
    rw [h d' rfl] at hpd
    cases hpd

/-- It ends in one only if the text did. -/
theorem getLast?_lower (hp : ∀ c, p c = true → isFixed c = true)
    (h : ∀ c ∈ s.getLast?, p c = false) : ∀ d ∈ (lower s).getLast?, p d = false := by
  have hall : ∀ earlier, ∀ d ∈ (lowerFrom earlier s).getLast?, p d = false := by
    induction s with
    | nil => exact fun _ d hd => nomatch hd
    | cons c s ih =>
      intro earlier d hd
      obtain ⟨w, hw, heq⟩ := lowerFrom_cons earlier c s
      rw [heq, List.getLast?_append] at hd
      cases s with
      | nil =>
        refine Bool.eq_false_iff.2 fun hpd => ?_
        obtain rfl := hw.fixed d (List.mem_of_getLast? hd) (hp d hpd)
        rw [h d rfl] at hpd
        cases hpd
      | cons c' s =>
        rcases Option.or_eq_some_iff.1 hd with hd | ⟨hnone, -⟩
        · exact ih (fun c hc => h c (by rwa [List.getLast?_cons_cons])) _ d hd
        · obtain ⟨w', hw', heq'⟩ := lowerFrom_cons (c :: earlier) c' s
          rw [heq', List.getLast?_eq_none_iff, List.append_eq_nil_iff] at hnone
          exact absurd hnone.1 hw'.nonempty
  exact hall []

/-- A blank or a dot at the beginning stays there. -/
theorem head?_lower_of_isFixed {c : Char} (hc : isFixed c = true) (h : s.head? = some c) :
    (lower s).head? = some c := by
  obtain ⟨s', rfl⟩ := List.head?_eq_some_iff.1 h
  obtain ⟨hsame, hsigma⟩ := isSettled_of_isFixed hc
  rw [lower, lowerFrom, if_neg hsigma, hsame]
  rfl

end Ends

end CodeSurvey.Text
