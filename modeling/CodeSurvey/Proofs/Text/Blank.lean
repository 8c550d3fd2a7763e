-- Blanks around a text and between its words: what is cut off, what stays, and which
-- texts stay as they are.
import CodeSurvey.Text.Blank
import CodeSurvey.Proofs.Text.Pieces
import Mathlib.Data.List.Chain
import Mathlib.Data.List.TakeWhile

namespace CodeSurvey.Text

/-! ## Cutting off -/

variable {p : Char → Bool} {s t front back : List Char}

theorem mem_dropAroundWhile {c : Char} (h : c ∈ dropAroundWhile p s) : c ∈ s := by
  unfold dropAroundWhile dropEndWhile at h
  have h := (List.dropWhile_sublist p).subset (List.mem_reverse.1 h)
  exact (List.dropWhile_sublist p).subset (List.mem_reverse.1 h)

/-- What is left does not end in what was cut off. -/
theorem getLast?_dropAroundWhile {c : Char} (h : (dropAroundWhile p s).getLast? = some c) :
    p c = false := by
  unfold dropAroundWhile dropEndWhile at h
  rw [List.getLast?_reverse] at h
  have := List.head?_dropWhile_not p (s.dropWhile p).reverse
  rw [h] at this
  simpa using this

/-- What is left does not begin with what was cut off. -/
theorem head?_dropAroundWhile {c : Char} (h : (dropAroundWhile p s).head? = some c) :
    p c = false := by
  have hfront : (s.dropWhile p).head? = some c := by
    have hback := List.takeWhile_append_dropWhile (p := p) (l := (s.dropWhile p).reverse)
    rw [← List.reverse_inj, List.reverse_append, List.reverse_reverse] at hback
    rw [← hback, List.head?_append]
    exact Option.or_eq_some_iff.2 (.inl h)
  have := List.head?_dropWhile_not p s
  rw [hfront] at this
  simpa using this

theorem dropWhile_eq_self (h : ∀ c ∈ s.head?, p c = false) : s.dropWhile p = s := by
  cases s with
  | nil => rfl
  | cons c s => rw [List.dropWhile_cons_of_neg (by simp [h c rfl])]

/-- The text that satisfies the test ends where something else follows. -/
theorem takeWhile_append_eq_left (hs : ∀ c ∈ s, p c = true) (ht : ∀ c ∈ t.head?, p c = false) :
    (s ++ t).takeWhile p = s := by
  rw [List.takeWhile_append_of_pos hs]
  cases t with
  | nil => rw [List.takeWhile_nil, List.append_nil]
  | cons c t => rw [List.takeWhile_cons_of_neg (by simp [ht c rfl]), List.append_nil]

theorem dropWhile_append_eq_right (hs : ∀ c ∈ s, p c = true) (ht : ∀ c ∈ t.head?, p c = false) :
    (s ++ t).dropWhile p = t := by
  rw [List.dropWhile_append_of_pos hs, dropWhile_eq_self ht]

theorem dropEndWhile_eq_self (h : ∀ c ∈ s.getLast?, p c = false) : dropEndWhile p s = s := by
  rw [dropEndWhile, dropWhile_eq_self (by simpa using h), List.reverse_reverse]

/-- Nothing is cut off where the ends do not satisfy the test. -/
theorem dropAroundWhile_eq_self (hfirst : ∀ c ∈ s.head?, p c = false)
    (hlast : ∀ c ∈ s.getLast?, p c = false) : dropAroundWhile p s = s := by
  rw [dropAroundWhile, dropWhile_eq_self hfirst, dropEndWhile_eq_self hlast]

theorem dropEndWhile_append (h : ∀ c ∈ back, p c = true) :
    dropEndWhile p (s ++ back) = dropEndWhile p s := by
  rw [dropEndWhile, List.reverse_append,
    List.dropWhile_append_of_pos fun c hc => h c (List.mem_reverse.1 hc), dropEndWhile]

/-- What satisfies the test at the ends makes no difference. -/
theorem dropAroundWhile_append (hfront : ∀ c ∈ front, p c = true) (hback : ∀ c ∈ back, p c = true) :
    dropAroundWhile p (front ++ s ++ back) = dropAroundWhile p s := by
  rw [dropAroundWhile, List.append_assoc, List.dropWhile_append_of_pos hfront,
    List.dropWhile_append]
  split
  · rename_i hall
    have hnone : back.dropWhile p = [] := List.dropWhile_eq_nil_iff.2 hback
    rw [dropAroundWhile, List.isEmpty_iff.1 hall, hnone]
  · exact dropEndWhile_append hback

/-- What is cut off at the ends of a text. -/
theorem exists_dropAroundWhile (p : Char → Bool) (s : List Char) :
    ∃ front back, (∀ c ∈ front, p c = true) ∧ (∀ c ∈ back, p c = true) ∧
      s = front ++ dropAroundWhile p s ++ back := by
  have hfront := List.takeWhile_append_dropWhile (p := p) (l := s)
  have hback := List.takeWhile_append_dropWhile (p := p) (l := (s.dropWhile p).reverse)
  have hsplit : s.dropWhile p =
      dropAroundWhile p s ++ ((s.dropWhile p).reverse.takeWhile p).reverse := by
    rw [← List.reverse_inj, ← hback]
    simp [dropAroundWhile, dropEndWhile]
  refine ⟨s.takeWhile p, ((s.dropWhile p).reverse.takeWhile p).reverse, ?_, ?_, ?_⟩
  · exact fun c hc => List.mem_takeWhile_imp hc
  · exact fun c hc => List.mem_takeWhile_imp (List.mem_reverse.1 hc)
  · rw [List.append_assoc, ← hsplit, hfront]

/-! ## Blanks -/

theorem allBlank_nil : allBlank [] = true := rfl

theorem allBlank_space : allBlank [' '] = true := rfl

theorem allBlank_none : ∀ s ∈ (none : Option (List Char)), allBlank s = true := nofun

theorem space_ne_nil : [' '] ≠ [] := List.cons_ne_nil _ _

theorem allBlank_iff : allBlank s = true ↔ ∀ c ∈ s, isBlank c = true := List.all_eq_true

theorem trim_append (hfront : allBlank front = true) (hback : allBlank back = true) :
    trim (front ++ s ++ back) = trim s :=
  dropAroundWhile_append (allBlank_iff.1 hfront) (allBlank_iff.1 hback)

theorem trim_append_blank (h : allBlank back = true) : trim (s ++ back) = trim s :=
  trim_append (show allBlank [] = true from rfl) h

theorem trim_blank_append (h : allBlank front = true) : trim (front ++ s) = trim s := by
  have := trim_append (s := s) h (show allBlank [] = true from rfl)
  rwa [List.append_nil] at this

theorem trimStart_append (hfront : allBlank front = true) (hs : ∀ c ∈ s.head?, isBlank c = false) :
    trimStart (front ++ s) = s := by
  rw [trimStart, List.dropWhile_append_of_pos (allBlank_iff.1 hfront)]
  exact dropWhile_eq_self hs

/-- What follows a text that is not blank is not cut off from its front. -/
theorem trimStart_append_of_ne_nil (h : trimStart s ≠ []) (t : List Char) :
    trimStart (s ++ t) = trimStart s ++ t := by
  unfold trimStart at *
  rw [List.dropWhile_append, if_neg (by simpa using h)]

theorem trim_trim (s : List Char) : trim (trim s) = trim s :=
  dropAroundWhile_eq_self (fun _ => head?_dropAroundWhile) fun _ => getLast?_dropAroundWhile

theorem trim_of_allBlank (h : allBlank s = true) : trim s = [] :=
  trim_append_blank (s := []) h

theorem trimEnd_cons (c : Char) (h : allBlank s = false) : trimEnd (c :: s) = c :: trimEnd s := by
  have hne : s.reverse.dropWhile isBlank ≠ [] := by
    intro hnil
    rw [List.dropWhile_eq_nil_iff] at hnil
    simp [allBlank_iff.2 fun d hd => hnil d (List.mem_reverse.2 hd)] at h
  rw [trimEnd, dropEndWhile, List.reverse_cons, List.dropWhile_append, if_neg (by simpa using hne)]
  simp [trimEnd, dropEndWhile]

theorem trimEnd_cons_of_allBlank {c : Char} (hc : isBlank c = false) (h : allBlank s = true) :
    trimEnd (c :: s) = [c] := by
  have := dropEndWhile_append (s := [c]) (allBlank_iff.1 h)
  rw [trimEnd, ← List.singleton_append, this]
  exact dropEndWhile_eq_self (by simpa using hc)

theorem allBlank_trimStart (s : List Char) : allBlank (trimStart s) = allBlank s := by
  induction s with
  | nil => rfl
  | cons c s ih =>
    unfold trimStart at *
    rw [List.dropWhile_cons]
    cases hc : isBlank c with
    | true => rw [if_pos rfl, ih]; simp [allBlank, hc]
    | false => rfl

/-- The blanks that are cut off from a text. -/
theorem exists_trim (s : List Char) : ∃ front back, allBlank front = true ∧ allBlank back = true ∧
    s = front ++ trim s ++ back := by
  obtain ⟨front, back, hfront, hback, hs⟩ := exists_dropAroundWhile isBlank s
  exact ⟨front, back, allBlank_iff.2 hfront, allBlank_iff.2 hback, hs⟩

theorem trim_eq_nil_iff : trim s = [] ↔ allBlank s = true := by
  constructor
  · intro h
    obtain ⟨front, back, hfront, hback, hs⟩ := exists_trim s
    rw [hs, h, List.append_nil, allBlank, List.all_append]
    exact Bool.and_eq_true_iff.2 ⟨hfront, hback⟩
  · exact trim_of_allBlank

theorem head?_trim {c : Char} (hc : isBlank c = false) (h : s.head? = some c) : (trim s).head? = some c := by
  obtain ⟨front, back, hfront, hback, hs⟩ := exists_trim s
  have hnot : ∀ {b : List Char}, allBlank b = true → c ∉ b.head? := by
    intro b hb hmem
    rw [allBlank_iff.1 hb c (List.mem_of_mem_head? hmem)] at hc
    cases hc
  rw [hs, List.append_assoc, List.head?_append, List.head?_append] at h
  rcases Option.or_eq_some_iff.1 h with h | ⟨-, h⟩
  · exact absurd h (hnot hfront)
  · exact (Option.or_eq_some_iff.1 h).resolve_right fun h => hnot hback h.2

theorem getLast?_trim {c : Char} (hc : isBlank c = false) (h : s.getLast? = some c) :
    (trim s).getLast? = some c := by
  obtain ⟨front, back, hfront, hback, hs⟩ := exists_trim s
  have hnot : ∀ {b : List Char}, allBlank b = true → c ∉ b.getLast? := by
    intro b hb hmem
    rw [allBlank_iff.1 hb c (List.mem_of_mem_getLast? hmem)] at hc
    cases hc
  rw [hs, List.getLast?_append, List.getLast?_append] at h
  rcases Option.or_eq_some_iff.1 h with h | ⟨-, h⟩
  · exact absurd h (hnot hback)
  · exact (Option.or_eq_some_iff.1 h).resolve_right fun h => hnot hfront h.2

/-- What is not blank stands as often in a text without the blanks at its ends. -/
theorem count_trim {c : Char} (h : isBlank c = false) (s : List Char) : (trim s).count c = s.count c := by
  obtain ⟨front, back, hfront, hback, hs⟩ := exists_trim s
  have hnone : ∀ {b : List Char}, allBlank b = true → b.count c = 0 := by
    intro b hb
    rw [List.count_eq_zero]
    intro hmem
    rw [allBlank_iff.1 hb c hmem] at h
    cases h
  conv_rhs => rw [hs]
  rw [List.count_append, List.count_append, hnone hfront, hnone hback]
  omega

/-! ## Words -/

theorem words_cons_blank {c : Char} (h : isBlank c = true) : words (c :: s) = words s := by
  rw [words, List.splitOnP_cons_eq_if_modifyHead, if_pos h]
  rfl

theorem words_append_blank (h : allBlank front = true) : words (front ++ s) = words s := by
  induction front with
  | nil => rfl
  | cons c front ih =>
    obtain ⟨hc, hrest⟩ := Bool.and_eq_true_iff.1 h
    rw [List.cons_append, words_cons_blank hc, ih hrest]

theorem words_append_cons {c : Char} (h : isBlank c = true) (s t : List Char) :
    words (s ++ c :: t) = words s ++ words t := by
  unfold words
  rw [List.splitOnP_append_cons s t h, List.filter_append]

theorem words_of_allBlank (h : allBlank s = true) : words s = [] := by
  have := words_append_blank (s := []) h
  rw [List.append_nil] at this
  rw [this]
  rfl

theorem words_append_blanks (h : allBlank t = true) (s : List Char) : words (s ++ t) = words s := by
  cases t with
  | nil => rw [List.append_nil]
  | cons c t =>
    obtain ⟨hc, ht⟩ := Bool.and_eq_true_iff.1 h
    rw [words_append_cons hc, words_of_allBlank ht, List.append_nil]

/-- Two texts with blanks between them. -/
theorem words_append_append (hne : t ≠ []) (h : allBlank t = true) (a b : List Char) :
    words (a ++ t ++ b) = words a ++ words b := by
  obtain ⟨c, t, rfl⟩ := List.exists_cons_of_ne_nil hne
  obtain ⟨hc, ht⟩ := Bool.and_eq_true_iff.1 h
  rw [List.append_assoc, List.cons_append, words_append_cons hc, words_append_blank ht]

/-- A text without blanks is one word. -/
theorem words_of_not_blank (hne : s ≠ []) (h : ∀ c ∈ s, isBlank c = false) : words s = [s] := by
  unfold words
  rw [List.splitOnP_eq_singleton h]
  simp [hne]

theorem ne_nil_of_mem_words {w : List Char} (h : w ∈ words s) : w ≠ [] := by
  have := (List.mem_filter.1 h).2
  simpa using this

theorem not_blank_of_mem_words {w : List Char} (h : w ∈ words s) : ∀ c ∈ w, isBlank c = false :=
  fun c hc => (mem_splitOnP (List.mem_of_mem_filter h) c hc).1

theorem singleSpaced_append_blank (h : allBlank front = true) :
    singleSpaced (front ++ s) = singleSpaced s := by
  rw [singleSpaced, words_append_blank h, singleSpaced]

theorem singleSpaced_trim (s : List Char) : singleSpaced (trim s) = singleSpaced s := by
  obtain ⟨front, back, hfront, hback, hs⟩ := exists_trim s
  conv_rhs => rw [hs]
  rw [singleSpaced, singleSpaced, List.append_assoc, words_append_blank hfront,
    words_append_blanks hback]

/-- The words of a text are what is not blank in it. -/
theorem flatten_words (s : List Char) : (words s).flatten = s.filter fun c => !isBlank c := by
  unfold words
  induction s with
  | nil => rfl
  | cons c s ih =>
    rw [List.splitOnP_cons_eq_if_modifyHead]
    by_cases hc : isBlank c = true
    · simpa [hc] using ih
    · obtain ⟨first, rest, hsplit⟩ := List.exists_cons_of_ne_nil (List.splitOnP_ne_nil isBlank s)
      rw [hsplit] at ih ⊢
      rw [if_neg hc, List.modifyHead_cons, List.filter_cons_of_pos (by simp), List.flatten_cons,
        List.filter_cons_of_pos (by simpa using hc), ← ih]
      by_cases hfirst : first = []
      · simp [hfirst]
      · simp [hfirst]

/-- What is not blank stays when blanks are evened out. -/
theorem mem_singleSpaced {c : Char} (h : isBlank c = false) : c ∈ singleSpaced s ↔ c ∈ s := by
  have hflat : c ∈ (words s).flatten ↔ c ∈ s := by
    rw [flatten_words]
    simp [h]
  unfold singleSpaced
  rw [← hflat, List.mem_flatten]
  constructor
  · intro hc
    by_contra hnot
    push Not at hnot
    have hspace : ∀ d ∈ [' '], d ≠ c := by
      intro d hd heq
      rw [List.mem_singleton.1 hd] at heq
      rw [← heq] at h
      cases h
    exact forall_mem_intercalate hspace (fun w hw d hd heq => hnot w hw (heq ▸ hd)) c hc rfl
  · rintro ⟨w, hw, hc⟩
    exact mem_intercalate_of_mem [' '] hw hc

/-- What stands at the ends of joined words stands at the ends of words. -/
theorem ends_of_intercalate {ws : List (List Char)}
    (h : ∀ w ∈ ws, w ≠ [] ∧ ∀ c ∈ w, p c = false) :
    (∀ c ∈ ([' '].intercalate ws).head?, p c = false) ∧
      ∀ c ∈ ([' '].intercalate ws).getLast?, p c = false := by
  induction ws with
  | nil => simp
  | cons w ws ih =>
    obtain ⟨⟨hne, hw⟩, hws⟩ := List.forall_mem_cons.1 h
    cases ws with
    | nil =>
      rw [List.intercalate_singleton]
      exact ⟨fun c hc => hw c (List.mem_of_mem_head? hc),
        fun c hc => hw c (List.mem_of_mem_getLast? hc)⟩
    | cons w' ws =>
      have hrest : [' '].intercalate (w' :: ws) ≠ [] := by
        have hw' := (List.forall_mem_cons.1 hws).1.1
        cases ws with
        | nil => rwa [List.intercalate_singleton]
        | cons w'' ws => simp [List.intercalate_cons_cons]
      rw [List.intercalate_cons_cons, List.append_assoc]
      refine ⟨fun c hc => hw c ?_, fun c hc => (ih hws).2 c ?_⟩
      · rw [List.head?_append_of_ne_nil _ hne] at hc
        exact List.mem_of_mem_head? hc
      · rwa [List.getLast?_append_of_ne_nil _ (by simp),
          List.getLast?_append_of_ne_nil _ hrest] at hc

/-- A text that single spaces leave as it is begins and ends with a word. -/
theorem ends_of_singleSpaced (h : singleSpaced s = s) :
    (∀ c ∈ s.head?, isBlank c = false) ∧ ∀ c ∈ s.getLast?, isBlank c = false := by
  rw [← h]
  exact ends_of_intercalate fun w hw => ⟨ne_nil_of_mem_words hw, not_blank_of_mem_words hw⟩

theorem trim_of_singleSpaced (h : singleSpaced s = s) : trim s = s :=
  dropAroundWhile_eq_self (ends_of_singleSpaced h).1 (ends_of_singleSpaced h).2

/-! ## Fixed beginnings -/

theorem dropFront?_eq_some_iff {head rest : List Char} :
    dropFront? head s = some rest ↔ s = head ++ rest := by
  induction head generalizing s with
  | nil => simp [dropFront?, List.isPrefixOf?, eq_comm]
  | cons c head ih =>
    cases s with
    | nil => simp [dropFront?, List.isPrefixOf?]
    | cons d s =>
      have : dropFront? (c :: head) (d :: s) = if c == d then dropFront? head s else none := rfl
      rw [this, List.cons_append, List.cons.injEq]
      split
      · rename_i heq
        rw [ih, eq_of_beq heq, eq_self, true_and]
      · rename_i hne
        simp only [reduceCtorEq, false_iff, not_and]
        rintro rfl
        simp at hne

/-- A text that begins with another character does not begin with the word. -/
theorem dropFront?_of_head?_ne {c : Char} (h : s.head? ≠ some c) (rest : List Char) :
    dropFront? (c :: rest) s = none := by
  rw [Option.eq_none_iff_forall_ne_some]
  intro after hafter
  rw [dropFront?_eq_some_iff.1 hafter] at h
  exact h rfl

theorem startsWith_singleton (c : Char) (s : List Char) :
    startsWith [c] s = true ↔ s.head? = some c := by
  cases s with
  | nil => simp [startsWith]
  | cons d s =>
    simp only [startsWith, List.isPrefixOf, Bool.and_true, beq_iff_eq, List.head?_cons,
      Option.some.injEq]
    exact eq_comm

/-! ## Up to a mark -/

theorem before_cons {mark : List Char} {c : Char} (h : mark.isPrefixOf? (c :: s) = none) :
    before mark (c :: s) = c :: before mark s := by
  unfold before
  rw [cutAt?, h]
  cases cutAt? mark s <;> rfl

theorem before_singleton (c : Char) (s : List Char) :
    before [c] s = s.takeWhile (fun d => !(c == d)) := by
  induction s with
  | nil => rfl
  | cons d s ih =>
    have hmark : [c].isPrefixOf? (d :: s) = if c == d then some s else none := by
      rw [List.isPrefixOf?]
      rfl
    rw [List.takeWhile_cons]
    by_cases heq : (c == d) = true
    · rw [before, cutAt?, hmark, if_pos heq, heq]
      rfl
    · rw [before_cons (hmark.trans (if_neg heq)), ih, eq_false_of_ne_true heq]
      rfl

theorem before_of_not_mem {c : Char} (h : c ∉ s) : before [c] s = s := by
  rw [before_singleton, List.takeWhile_eq_self_iff]
  intro d hd
  have : c ≠ d := fun heq => h (heq ▸ hd)
  simpa using this

/-- What follows the mark makes no difference to what stands before it. -/
theorem before_append_cons (c : Char) (s t : List Char) : before [c] (s ++ c :: t) = before [c] s := by
  rw [before_singleton, before_singleton, List.takeWhile_append]
  split
  · rename_i hlength
    rw [(List.takeWhile_prefix _).eq_of_length hlength]
    simp
  · rfl

/-- The mark itself does not stand there. -/
theorem not_mem_before (c : Char) (s : List Char) : c ∉ before [c] s := by
  rw [before_singleton]
  intro hc
  simpa using List.mem_takeWhile_imp hc

/-- What stands in front of a character written twice, and does not itself have it twice in a
row. -/
theorem before_pair {m : Char} (h : (s ++ t.head?.toList).IsChain fun a b => a = m → b ≠ m)
    (ht : before [m, m] t = []) : before [m, m] (s ++ t) = s := by
  induction s with
  | nil => exact ht
  | cons c s ih =>
    rw [List.cons_append, List.isChain_cons] at h
    have hmark : [m, m].isPrefixOf? (c :: (s ++ t)) = none := by
      rw [← Option.not_isSome_iff_eq_none, Option.isSome_iff_exists]
      rintro ⟨rest, hrest⟩
      have heq := dropFront?_eq_some_iff.1 hrest
      obtain ⟨rfl, hnext⟩ := List.cons.inj heq
      refine h.1 c ?_ rfl rfl
      cases s with
      | nil => simp [show t = c :: rest from hnext]
      | cons d s => rw [(List.cons.inj hnext).1]; rfl
    rw [List.cons_append, before_cons hmark, ih h.2]

end CodeSurvey.Text
