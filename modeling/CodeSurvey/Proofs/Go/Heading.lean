-- The beginning of a line that declares a function or a method, up to its parameters, as it
-- is written. The survey finds the declaration there when its name is an ASCII name, and
-- nothing at all when it is not.
import CodeSurvey.Proofs.Go.Pass
import CodeSurvey.Proofs.Text.Name

namespace CodeSurvey.Go

open Text

/-! ## Names -/

/-- A name as Go spells it: characters of words of any script, and no digit in front. -/
def IsIdentifier (s : List Char) : Prop :=
  (∃ c ∈ s.head?, c.isDigit = false) ∧ ∀ c ∈ s, isWordChar c = true

-- The characters of the text are looked at, not all that there are.
instance (s : List Char) : Decidable (IsIdentifier s) :=
  @instDecidableAnd _ _ (Option.decidableExistsMem _) (List.decidableBAll _ _)

namespace IsIdentifier

variable {s : List Char}

theorem ne_nil (h : IsIdentifier s) : s ≠ [] := by
  obtain ⟨⟨c, hc, -⟩, -⟩ := h
  rintro rfl
  cases hc

theorem not_blank (h : IsIdentifier s) : ∀ c ∈ s, isBlank c = false :=
  fun c hc => not_blank_of_isWordChar (h.2 c hc)

theorem head?_not_blank (h : IsIdentifier s) (t : List Char) :
    ∀ c ∈ (s ++ t).head?, isBlank c = false := by
  intro c hc
  rw [List.head?_append_of_ne_nil _ h.ne_nil] at hc
  exact h.not_blank c (List.mem_of_mem_head? hc)

/-- A character that belongs to no word stands in no name. -/
theorem not_mem (h : IsIdentifier s) {c : Char} (hc : isWordChar c = false) : c ∉ s :=
  fun hmem => Bool.false_ne_true (hc.symm.trans (h.2 c hmem))

theorem head?_ne (h : IsIdentifier s) {c : Char} (hc : isWordChar c = false) : s.head? ≠ some c :=
  fun heq => h.not_mem hc (List.mem_of_mem_head? heq)

end IsIdentifier

/-- A character of a word that is no ASCII digit begins a name, if it is an ASCII character. -/
theorem isNameStart_of_isAsciiWord {c : Char} (h : isAsciiWord c = true) (hdigit : c.isDigit = false) :
    isNameStart c = true := by
  unfold isAsciiWord Char.isAlphanum at h
  rw [hdigit, Bool.or_false] at h
  exact h

/-- A name with a character beyond ASCII is not read, or only a part of it is, and then that
character is what follows. -/
theorem takeName?_of_wide {name rest : List Char} (hname : IsIdentifier name)
    (h : ¬∀ c ∈ name, isAsciiWord c = true) : takeName? (name ++ rest) = none ∨
      ∃ read c after, takeName? (name ++ rest) = some (read, c :: after) ∧ isWordChar c = true := by
  obtain hnone | ⟨read, c, after, htake, hc⟩ := takeName?_of_not_ascii h rest
  · exact .inl hnone
  · exact .inr ⟨read, c, after, htake, hname.2 c hc⟩

/-! ## Brackets -/

/-- Brackets are cut off up to the first that closes. -/
theorem skipBrackets_append {s : List Char} (h : ']' ∉ s) (after : List Char) :
    skipBrackets ('[' :: (s ++ ']' :: after)) = (true, after) := by
  have hdrop : (s ++ ']' :: after).dropWhile (· ≠ ']') = ']' :: after := by
    rw [List.dropWhile_append_of_pos]
    · simp
    · intro c hc
      have : c ≠ ']' := fun heq => h (heq ▸ hc)
      simpa using this
  rw [skipBrackets, hdrop]

theorem skipBrackets_of_head?_ne {s : List Char} (h : s.head? ≠ some '[') :
    skipBrackets s = (false, s) := by
  unfold skipBrackets
  split
  · exact absurd rfl h
  · rfl

/-! ## Written headings -/

/-- Text in brackets, with the blanks in front of the opening one. -/
structure Bracketed where
  gap : List Char
  text : List Char
  blank_gap : allBlank gap = true

/-- What stands in front of the parameters of a function or a method: the keyword, perhaps a
receiver, the name, and perhaps type parameters. A receiver has no closing parenthesis in it and
type parameters have no closing bracket. -/
structure Heading where
  receiver : Option Bracketed
  gap : List Char
  name : List Char
  typeParameters : Option Bracketed
  after : List Char
  blank_gap : allBlank gap = true
  apart : receiver = none → gap ≠ []
  isIdentifier : IsIdentifier name
  blank_after : allBlank after = true
  closed_receiver : ∀ r ∈ receiver, ')' ∉ r.text
  closed_typeParameters : ∀ t ∈ typeParameters, ']' ∉ t.text
  alone : receiver.isSome = true → typeParameters = none

namespace Heading

variable (h : Heading)

def receiverText : List Char :=
  (h.receiver.map fun r => r.gap ++ '(' :: (r.text ++ [')'])).getD []

def typeParametersText : List Char :=
  (h.typeParameters.map fun t => t.gap ++ '[' :: (t.text ++ [']'])).getD []

/-- All behind the name, up to the parenthesis of the parameters. -/
def back : List Char := h.typeParametersText ++ h.after ++ ['(']

def write : List Char :=
  ['f', 'u', 'n', 'c'] ++ h.receiverText ++ h.gap ++ h.name ++ h.back

theorem closed_none : ∀ r ∈ (none : Option Bracketed), ')' ∉ r.text := by simp

/-- A heading with one space in front of the name, and no type parameters. -/
def spaced (receiver : Option Bracketed) (name : List Char) (isIdentifier : IsIdentifier name)
    (closed : ∀ r ∈ receiver, ')' ∉ r.text) : Heading where
  receiver := receiver
  gap := [' ']
  name := name
  typeParameters := none
  after := []
  blank_gap := allBlank_space
  apart := by simp
  isIdentifier := isIdentifier
  blank_after := List.all_nil
  closed_receiver := closed
  closed_typeParameters := by simp
  alone := by simp

/-- The name is an ASCII name. -/
def IsAscii : Prop := ∀ c ∈ h.name, isAsciiWord c = true

instance : Decidable h.IsAscii := List.decidableBAll _ _

/-- What the survey reads of the heading, when `rest` follows it. -/
def head (rest : List Char) : FuncHead :=
  ⟨h.receiver.map (·.text), h.name, h.typeParameters.isSome, rest⟩

variable {h} (rest : List Char)

/-- Behind the name stand a blank, a bracket or a parenthesis. -/
theorem head?_back : ∀ c ∈ (h.back ++ rest).head?, isAsciiWord c = false := by
  unfold back typeParametersText
  cases htypes : h.typeParameters with
  | none =>
    rw [Option.map_none, Option.getD_none, List.nil_append, List.append_assoc]
    exact head?_append_of_allBlank h.blank_after (by rintro c ⟨⟩; rfl)
  | some t =>
    rw [Option.map_some, Option.getD_some]
    simp only [List.append_assoc]
    exact head?_append_of_allBlank t.blank_gap (by rintro c ⟨⟩; rfl)

/-- Type parameters are cut off, and the parenthesis of the parameters is left. -/
theorem trimStart_skipBrackets_back :
    (skipBrackets (trimStart (h.back ++ rest))).1 = h.typeParameters.isSome ∧
      trimStart (skipBrackets (trimStart (h.back ++ rest))).2 = '(' :: rest := by
  have hopen : ∀ {gap : List Char} {c : Char} {s : List Char}, allBlank gap = true →
      isBlank c = false → trimStart (gap ++ c :: s) = c :: s := by
    intro gap c s hgap hc
    refine trimStart_append hgap ?_
    rintro d ⟨⟩
    exact hc
  have hparen : trimStart (h.after ++ '(' :: rest) = '(' :: rest := hopen h.blank_after rfl
  unfold back typeParametersText
  cases htypes : h.typeParameters with
  | none =>
    have htrim : trimStart ('(' :: rest) = '(' :: rest := rfl
    simp [hparen, skipBrackets, htrim]
  | some t =>
    have htrim : trimStart (t.gap ++ '[' :: (t.text ++ ']' :: (h.after ++ '(' :: rest))) =
        '[' :: (t.text ++ ']' :: (h.after ++ '(' :: rest)) := hopen t.blank_gap rfl
    have hclosed := skipBrackets_append (h.closed_typeParameters t htypes) (h.after ++ '(' :: rest)
    simp only [Option.map_some, Option.getD_some, List.append_assoc, List.cons_append,
      List.nil_append, htrim, hclosed, Option.isSome_some, hparen, and_self]

/-! ## Reading -/

theorem trimStart_name (s : List Char) : trimStart (h.gap ++ (h.name ++ s)) = h.name ++ s :=
  trimStart_append h.blank_gap (h.isIdentifier.head?_not_blank s)

theorem takeName?_name (hascii : h.IsAscii) :
    takeName? (h.name ++ (h.back ++ rest)) = some (h.name, h.back ++ rest) := by
  obtain ⟨c, hc, hdigit⟩ := h.isIdentifier.1
  have hstart := isNameStart_of_isAsciiWord (hascii c (List.mem_of_mem_head? hc)) hdigit
  exact takeName?_append ⟨c, hc, hstart⟩ hascii (head?_back rest)

/-- What follows a name that is read in part is neither a blank nor a bracket. -/
theorem trimStart_cons_of_isWordChar {c : Char} (hc : isWordChar c = true) (s : List Char) :
    trimStart (c :: s) = c :: s ∧ c ≠ '(' ∧ c ≠ '[' := by
  refine ⟨dropWhile_eq_self ?_, ?_, ?_⟩
  · rintro d ⟨⟩
    exact not_blank_of_isWordChar hc
  · rintro rfl
    exact absurd hc (by decide +kernel)
  · rintro rfl
    exact absurd hc (by decide +kernel)

/-- The text of a receiver, up to the first closing parenthesis. -/
theorem span_receiver {r : Bracketed} (hr : r ∈ h.receiver) (s : List Char) :
    (r.text ++ ')' :: s).takeWhile (· ≠ ')') = r.text ∧
      (r.text ++ ')' :: s).dropWhile (· ≠ ')') = ')' :: s := by
  have hplain : ∀ c ∈ r.text, decide (c ≠ ')') = true := fun c hc => by
    have : c ≠ ')' := fun heq => h.closed_receiver r hr (heq ▸ hc)
    simpa using this
  rw [List.takeWhile_append_of_pos hplain, List.dropWhile_append_of_pos hplain]
  simp

/-- A method is read from what stands behind its receiver. -/
theorem method?_write {r : Bracketed} (hr : h.receiver = some r) :
    method? (h.write ++ rest) =
      (takeName? (h.name ++ (h.back ++ rest))).bind fun (name, after) =>
        match trimStart after with
        | '(' :: params => some ⟨some r.text, name, false, params⟩
        | _ => none := by
  have hfront : dropFront? ['f', 'u', 'n', 'c'] (h.write ++ rest) =
      some (r.gap ++ '(' :: (r.text ++ ')' :: (h.gap ++ (h.name ++ (h.back ++ rest))))) := by
    rw [dropFront?_eq_some_iff, write, receiverText, hr]
    simp
  have hopen : trimStart (r.gap ++ '(' :: (r.text ++ ')' :: (h.gap ++ (h.name ++ (h.back ++ rest))))) =
      '(' :: (r.text ++ ')' :: (h.gap ++ (h.name ++ (h.back ++ rest)))) :=
    trimStart_append r.blank_gap (by rintro c ⟨⟩; rfl)
  obtain ⟨htake, hdrop⟩ := span_receiver hr (h.gap ++ (h.name ++ (h.back ++ rest)))
  unfold method?
  rw [hfront, Option.bind_eq_bind, Option.bind_some, hopen]
  simp only [hdrop, htake, trimStart_name]
  rfl

/-- A line without a receiver is no method. -/
theorem method?_write_of_none (hr : h.receiver = none) : method? (h.write ++ rest) = none := by
  have hfront : dropFront? ['f', 'u', 'n', 'c'] (h.write ++ rest) =
      some (h.gap ++ (h.name ++ (h.back ++ rest))) := by
    rw [dropFront?_eq_some_iff, write, receiverText, hr]
    simp
  obtain ⟨c, r, hname⟩ := List.exists_cons_of_ne_nil h.isIdentifier.ne_nil
  have hc : c ≠ '(' :=
    (trimStart_cons_of_isWordChar (h.isIdentifier.2 c (hname ▸ List.mem_cons_self)) []).2.1
  unfold method?
  rw [hfront, Option.bind_eq_bind, Option.bind_some, trimStart_name, hname, List.cons_append]
  split
  · rename_i heq
    exact absurd (List.cons.inj heq).1 hc
  · rfl

/-- A function is read from its name on. -/
theorem function?_write (hr : h.receiver = none) : function? (h.write ++ rest) =
    (takeName? (h.name ++ (h.back ++ rest))).bind fun (name, after) =>
      match trimStart (skipBrackets (trimStart after)).2 with
      | '(' :: params => some ⟨none, name, (skipBrackets (trimStart after)).1, params⟩
      | _ => none := by
  have hkeyword : afterKeyword? ['f', 'u', 'n', 'c'] (h.write ++ rest) =
      some (h.name ++ (h.back ++ rest)) := by
    have hwrite : h.write ++ rest =
        ['f', 'u', 'n', 'c'] ++ (h.gap ++ (h.name ++ (h.back ++ rest))) := by
      rw [write, receiverText, hr]
      simp
    rw [hwrite]
    exact afterKeyword?_gap (h.apart hr) h.blank_gap (h.isIdentifier.head?_not_blank _)
  unfold function?
  rw [hkeyword]
  rfl

/-- A line with a receiver is no function. -/
theorem function?_write_of_some {r : Bracketed} (hr : h.receiver = some r) :
    function? (h.write ++ rest) = none := by
  have hkeyword : ∀ after, afterKeyword? ['f', 'u', 'n', 'c'] (h.write ++ rest) = some after →
      takeName? after = none := by
    intro after hafter
    obtain ⟨c, s, heq, hblank, rfl⟩ := afterKeyword?_eq_some_iff.1 hafter
    rw [write, receiverText, hr, Option.map_some, Option.getD_some] at heq
    simp only [List.append_assoc, List.cons_append, List.nil_append, List.cons.injEq, true_and]
      at heq
    cases hgap : r.gap with
    | nil =>
      rw [hgap, List.nil_append] at heq
      obtain rfl := (List.cons.inj heq).1
      cases hblank
    | cons d gap =>
      rw [hgap, List.cons_append] at heq
      have hopen : trimStart s = '(' :: (r.text ++ ')' :: (h.gap ++ (h.name ++ (h.back ++ rest)))) := by
        rw [← (List.cons.inj heq).2]
        exact trimStart_append (Bool.and_eq_true_iff.1 (hgap ▸ r.blank_gap)).2 (by rintro c ⟨⟩; rfl)
      rw [hopen]
      rfl
  unfold function?
  cases hafter : afterKeyword? ['f', 'u', 'n', 'c'] (h.write ++ rest) with
  | none => rfl
  | some after =>
    rw [Option.bind_eq_bind, Option.bind_some, hkeyword after hafter]
    rfl

/-- With an ASCII name the heading is read as it is written. -/
theorem func?_write (hascii : h.IsAscii) : func? (h.write ++ rest) = some (h.head rest) := by
  obtain ⟨hgeneric, hopen⟩ := trimStart_skipBrackets_back (h := h) rest
  unfold func? head
  cases hr : h.receiver with
  | none =>
    rw [method?_write_of_none rest hr, Option.none_or, function?_write rest hr,
      takeName?_name rest hascii, Option.bind_some]
    dsimp only
    rw [hopen, hgeneric]
    rfl
  | some r =>
    have hplain := h.alone (by rw [hr]; rfl)
    have hback : trimStart (h.back ++ rest) = '(' :: rest := by
      unfold back typeParametersText
      rw [hplain, Option.map_none, Option.getD_none, List.nil_append, List.append_assoc]
      exact trimStart_append h.blank_after (by rintro c ⟨⟩; rfl)
    rw [method?_write rest hr, takeName?_name rest hascii, Option.bind_some]
    dsimp only
    rw [hback, hplain]
    rfl

/-- With a character beyond ASCII in its name the heading is not read at all. -/
theorem func?_write_of_not_ascii (h' : ¬h.IsAscii) : func? (h.write ++ rest) = none := by
  have hname : takeName? (h.name ++ (h.back ++ rest)) = none ∨ ∃ read c after,
      takeName? (h.name ++ (h.back ++ rest)) = some (read, c :: after) ∧ isWordChar c = true :=
    takeName?_of_wide h.isIdentifier h'
  unfold func?
  cases hr : h.receiver with
  | none =>
    rw [method?_write_of_none rest hr, Option.none_or, function?_write rest hr]
    rcases hname with hname | ⟨read, c, after, hname, hc⟩
    · rw [hname, Option.bind_none]
    · obtain ⟨htrim, hparen, hbracket⟩ := trimStart_cons_of_isWordChar hc after
      have hskip : skipBrackets (c :: after) = (false, c :: after) :=
        skipBrackets_of_head?_ne fun heq => hbracket (Option.some.inj heq)
      rw [hname, Option.bind_some]
      dsimp only
      rw [htrim, hskip, htrim]
      split
      · rename_i heq
        exact absurd (List.cons.inj heq).1 hparen
      · rfl
  | some r =>
    rw [method?_write rest hr, function?_write_of_some rest hr, Option.or_none]
    rcases hname with hname | ⟨read, c, after, hname, hc⟩
    · rw [hname, Option.bind_none]
    · obtain ⟨htrim, hparen, -⟩ := trimStart_cons_of_isWordChar hc after
      rw [hname, Option.bind_some]
      dsimp only
      rw [htrim]
      split
      · rename_i heq
        exact absurd (List.cons.inj heq).1 hparen
      · rfl

/-- Outside of a block of imports, the line of a heading is taken for a declaration or for
nothing. -/
theorem lineKind_write : lineKind false (h.write ++ rest) =
    if h.IsAscii then .func (h.head rest) else .other := by
  have hline : h.write ++ rest = 'f' :: 'u' :: 'n' :: 'c' :: ((h.write ++ rest).drop 4) := rfl
  have htrim : trimStart (h.write ++ rest) = h.write ++ rest :=
    dropWhile_eq_self (by rw [hline]; rintro c ⟨⟩; rfl)
  have hopens : opensImports (h.write ++ rest) = false := by
    rw [opensImports, htrim, hline]
    rfl
  have himport : import? (h.write ++ rest) = none := by
    rw [import?, htrim, hline]
    rfl
  have htype : type? (h.write ++ rest) = none := by
    rw [hline]
    rfl
  rw [lineKind, hopens, himport, htype, if_neg Bool.false_ne_true, if_neg Bool.false_ne_true]
  dsimp only
  by_cases hascii : h.IsAscii
  · rw [if_pos hascii, func?_write rest hascii]
  · rw [if_neg hascii, func?_write_of_not_ascii rest hascii]

end Heading

end CodeSurvey.Go
