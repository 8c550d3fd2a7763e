-- The words of a text with signs between them, each sign taken as a word of its own.
-- They do not change when blanks are evened out, and they tell what stands between the
-- signs.
import CodeSurvey.Proofs.Text.Blank
import CodeSurvey.Proofs.Text.Pieces
import Mathlib.Data.List.Basic

namespace CodeSurvey.Text

variable {s t : List Char} {sign : Char → Bool}

/-- The words of a text when each sign stands for a word. -/
def lexemes (sign : Char → Bool) (s : List Char) : List (List Char) :=
  words (s.flatMap fun c => if sign c then [' ', c, ' '] else [c])

theorem lexemes_append_blank {c : Char} (hblank : isBlank c = true) (hsign : sign c = false)
    (s t : List Char) : lexemes sign (s ++ c :: t) = lexemes sign s ++ lexemes sign t := by
  unfold lexemes
  rw [List.flatMap_append, List.flatMap_cons, hsign, if_neg Bool.false_ne_true,
    List.singleton_append, words_append_cons hblank]

theorem lexemes_append_sign {c : Char} (hblank : isBlank c = false) (hsign : sign c = true)
    (s t : List Char) : lexemes sign (s ++ c :: t) = lexemes sign s ++ [c] :: lexemes sign t := by
  have hword : words [c] = [[c]] := words_of_not_blank (List.cons_ne_nil _ _) (by simpa using hblank)
  unfold lexemes
  rw [List.flatMap_append, List.flatMap_cons, if_pos hsign]
  change words (_ ++ ' ' :: ([c] ++ ' ' :: _)) = _
  rw [words_append_cons rfl, words_append_cons rfl, hword]
  rfl

/-- Where no sign stands, the lexemes are the words. -/
theorem lexemes_of_not_sign (h : ∀ c ∈ s, sign c = false) : lexemes sign s = words s := by
  unfold lexemes
  have hsame : (s.flatMap fun c => if sign c then [' ', c, ' '] else [c]) = s.flatMap (fun c => [c]) :=
    List.flatMap_congr fun c hc => by simp [h c hc]
  rw [hsame, List.flatMap_singleton']

/-- Signs are not blank. -/
def Signs (sign : Char → Bool) : Prop := ∀ c, isBlank c = true → sign c = false

theorem lexemes_of_allBlank (hsigns : Signs sign) (h : allBlank s = true) : lexemes sign s = [] := by
  rw [lexemes_of_not_sign fun c hc => hsigns c (allBlank_iff.1 h c hc), words_of_allBlank h]

theorem lexemes_append_append (hsigns : Signs sign) (hs : allBlank s = true)
    (ht : allBlank t = true) (a : List Char) : lexemes sign (s ++ a ++ t) = lexemes sign a := by
  have hfront : ∀ {b : List Char} (a : List Char), allBlank b = true →
      lexemes sign (b ++ a) = lexemes sign a := by
    intro b a hb
    induction b with
    | nil => rfl
    | cons c b ih =>
      obtain ⟨hc, hb⟩ := Bool.and_eq_true_iff.1 hb
      have := lexemes_append_blank hc (hsigns c hc) [] (b ++ a)
      rw [List.nil_append] at this
      rw [List.cons_append, this, ih hb]
      rfl
  cases t with
  | nil => rw [List.append_nil, hfront a hs]
  | cons c t =>
    obtain ⟨hc, ht⟩ := Bool.and_eq_true_iff.1 ht
    rw [lexemes_append_blank hc (hsigns c hc), hfront a hs, lexemes_of_allBlank hsigns ht,
      List.append_nil]

/-- Blanks at the ends make no difference. -/
theorem lexemes_trim (hsigns : Signs sign) (s : List Char) : lexemes sign (trim s) = lexemes sign s := by
  obtain ⟨front, back, hfront, hback, hs⟩ := exists_trim s
  conv_rhs => rw [hs]
  rw [lexemes_append_append hsigns hfront hback]

/-- The words between separators are the lexemes between them, where no other sign stands. -/
theorem map_words_splitOn {sep : Char} (hblank : isBlank sep = false) (hsep : sign sep = true)
    {s : List Char} (h : ∀ c ∈ s, sign c = true → c = sep) :
    (s.splitOn sep).map words = (lexemes sign s).splitOn [sep] := by
  have hpart : ∀ {a : List Char}, (∀ c ∈ a, sign c = true → c = sep) → sep ∉ a →
      lexemes sign a = words a ∧ [sep] ∉ words a := by
    intro a ha hnot
    refine ⟨lexemes_of_not_sign fun c hc => ?_, fun hmem => ?_⟩
    · by_contra hsign
      exact hnot (ha c hc (by simpa using hsign) ▸ hc)
    · have hpiece := (mem_splitOnP (List.mem_of_mem_filter hmem) sep (by simp)).2
      exact hnot hpiece
  by_cases hmem : sep ∈ s
  · obtain ⟨a, b, rfl, hnot⟩ := List.eq_append_cons_of_mem hmem
    have hb := map_words_splitOn hblank hsep (s := b) fun c hc => h c (by simp [hc])
    obtain ⟨hlex, hword⟩ := hpart (fun c hc => h c (by simp [hc])) hnot
    rw [List.splitOn_append_cons_self, List.map_append, hb, List.splitOn_eq_singleton hnot,
      lexemes_append_sign hblank hsep, hlex, List.splitOn_append_cons_self_of_not_mem hword]
    rfl
  · obtain ⟨hlex, hword⟩ := hpart h hmem
    rw [List.splitOn_eq_singleton hmem, hlex, List.splitOn_eq_singleton hword]
    rfl
termination_by s.length
decreasing_by
  subst_vars
  simp only [List.length_append, List.length_cons]
  omega

end CodeSurvey.Text
