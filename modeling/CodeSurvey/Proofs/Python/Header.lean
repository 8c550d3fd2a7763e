-- The reading of a Python header: over its lines as over one text with line feeds,
-- without a part for the lines after its end, and over texts that leave its brackets
-- and quotes as they were.
import CodeSurvey.Python.Header
import CodeSurvey.Proofs.Text.Lines
import CodeSurvey.Proofs.Text.Nested

namespace CodeSurvey.Python

open Text

/-! ## Over lines -/

variable {r : Reading} {fuel size : Nat} {header : Header} {lines : List (List Char)}

/-- A header ends on the first line, or it goes on over the line feed after it. -/
theorem readOn_cons_eq_some {line : List Char} {rest : List (List Char)} :
    readOn r (fuel + 1) (line :: rest) = some (header, size) ↔
      r.line line = .done header ∧ size = 1 ∨
        ∃ r₁ r₂ n, r.line line = .more r₁ ∧ r₁.next '\n' = .more r₂ ∧
          readOn r₂ fuel rest = some (header, n) ∧ size = n + 1 := by
  rw [readOn]
  cases r.line line with
  | done found => simp [eq_comm]
  | broken => simp
  | more r₁ =>
    cases hnext : r₁.next '\n' with
    | done found => simp [hnext]
    | broken => simp [hnext]
    | more r₂ =>
      have hsize : ∀ n, n + 1 = size ↔ size = n + 1 := fun n => eq_comm
      simp [hnext, Option.map_eq_some_iff, hsize]

/-- A header has at least one line and no more than there are. -/
theorem readOn_size (h : readOn r fuel lines = some (header, size)) :
    0 < size ∧ size ≤ lines.length ∧ size ≤ fuel := by
  fun_induction readOn r fuel lines generalizing size with
  | case1 => cases h
  | case2 => cases h
  | case3 r fuel line rest found hline =>
    obtain ⟨rfl, rfl⟩ := Prod.mk.inj (Option.some.inj h)
    simp
  | case4 => cases h
  | case5 r fuel line rest r' hline r'' hnext ih =>
    obtain ⟨⟨found, n⟩, hread, heq⟩ := Option.map_eq_some_iff.1 h
    obtain ⟨rfl, rfl⟩ := Prod.mk.inj heq
    have := ih hread
    simp only [List.length_cons]
    omega
  | case6 => cases h

/-- A header that has ended is the same when lines follow. -/
theorem readOn_append {found : Header × Nat} (h : readOn r fuel lines = some found)
    (later : List (List Char)) : readOn r fuel (lines ++ later) = some found := by
  fun_induction readOn r fuel lines generalizing found with
  | case1 => cases h
  | case2 => cases h
  | case3 r fuel line rest header hline => rw [List.cons_append, readOn, hline]; exact h
  | case4 => cases h
  | case5 r fuel line rest r' hline r'' hnext ih =>
    obtain ⟨below, hread, rfl⟩ := Option.map_eq_some_iff.1 h
    rw [List.cons_append, readOn, hline]
    dsimp only
    rw [hnext]
    dsimp only
    rw [ih hread, Option.map_some]
  | case6 => cases h

/-- A header that has ended needs none of the lines after it. -/
theorem readOn_of_append {found : Header × Nat} {front later : List (List Char)}
    (h : readOn r fuel (front ++ later) = some found) (hsize : found.2 ≤ front.length) :
    readOn r fuel front = some found := by
  induction front generalizing r fuel found with
  | nil =>
    obtain ⟨header, size⟩ := found
    have hpos := (readOn_size h).1
    dsimp only at hsize
    rw [List.length_nil] at hsize
    omega
  | cons line front ih =>
    cases fuel with
    | zero => cases h
    | succ fuel =>
      obtain ⟨header, size⟩ := found
      rw [List.cons_append, readOn_cons_eq_some] at h
      refine readOn_cons_eq_some.2 (h.imp_right ?_)
      rintro ⟨r₁, r₂, n, hline, hnext, hread, rfl⟩
      exact ⟨r₁, r₂, n, hline, hnext, ih hread (Nat.le_of_succ_le_succ hsize), rfl⟩

/-- Of the lines after a header that has ended it makes no difference which they are. -/
theorem readHeader_of_front {found : Header × Nat} {front later : List (List Char)}
    (h : readHeader (front ++ later) = some found) (hsize : found.2 ≤ front.length)
    (later' : List (List Char)) : readHeader (front ++ later') = some found :=
  readOn_append (readOn_of_append h hsize) later'

theorem Reading.line_append (r : Reading) (a b : List Char) : r.line (a ++ b) =
    match r.line a with
    | .more r => r.line b
    | step => step := by
  induction a generalizing r with
  | nil => rfl
  | cons c a ih =>
    rw [List.cons_append, Reading.line, Reading.line]
    cases r.next c with
    | more r' => exact ih r'
    | done header => rfl
    | broken => rfl

theorem Reading.line_append_of_more {r r' : Reading} {a : List Char} (h : r.line a = .more r')
    (b : List Char) : r.line (a ++ b) = r'.line b := by
  rw [line_append, h]

/-- A text that does not end the header is read to its end from each place in it. -/
theorem Reading.line_append_cons_eq_more {r r' : Reading} {a b : List Char} {c : Char} :
    r.line (a ++ c :: b) = .more r' ↔
      ∃ r₁ r₂, r.line a = .more r₁ ∧ r₁.next c = .more r₂ ∧ r₂.line b = .more r' := by
  rw [line_append]
  cases r.line a with
  | done header => simp
  | broken => simp
  | more r₁ =>
    cases hnext : r₁.next c <;> simp [Reading.line, hnext]

/-- The lines of a header, joined by line feeds, are read as one text up to its end. -/
theorem readOn_of_line {r r' : Reading} {body after : List Char}
    (hlines : ∀ line ∈ lines, '\n' ∉ line)
    (hjoined : ['\n'].intercalate lines = body ++ ':' :: after) (hmore : r.line body = .more r')
    (hdone : r'.next ':' = .done header) (hfuel : body.count '\n' < fuel) :
    readOn r fuel lines = some (header, body.count '\n' + 1) := by
  induction lines generalizing r body fuel with
  | nil => simp at hjoined
  | cons line rest ih =>
    obtain ⟨hline, hrest⟩ := List.forall_mem_cons.1 hlines
    cases fuel with
    | zero => exact absurd hfuel (Nat.not_lt_zero _)
    | succ fuel =>
      by_cases hmem : '\n' ∈ body
      · obtain ⟨a, b, rfl, ha⟩ := List.eq_append_cons_of_mem hmem
        rw [List.append_assoc, List.cons_append] at hjoined
        obtain ⟨rfl, -, hbelow⟩ := rest_of_joined hline hjoined ha
        have hcount : (line ++ '\n' :: b).count '\n' = b.count '\n' + 1 := by
          rw [List.count_append, List.count_eq_zero.2 ha, List.count_cons_self, Nat.zero_add]
        obtain ⟨r₁, r₂, hfirst, hnext, hmore⟩ := Reading.line_append_cons_eq_more.1 hmore
        rw [hcount] at hfuel ⊢
        exact readOn_cons_eq_some.2 (.inr ⟨r₁, r₂, _, hfirst, hnext,
          ih hrest hbelow hmore (Nat.lt_of_succ_lt_succ hfuel), rfl⟩)
      · have hbegin : ['\n'].intercalate (line :: rest) = (body ++ [':']) ++ after := by
          rw [hjoined, List.append_assoc, List.singleton_append]
        obtain ⟨more, rfl⟩ := prefix_of_joined hbegin (by simp [hmem])
        have hread : r.line (body ++ [':'] ++ more) = .done header := by
          rw [List.append_assoc, Reading.line_append_of_more hmore, List.singleton_append,
            Reading.line, hdone]
        rw [readOn, hread, List.count_eq_zero.2 hmem]

/-- Over several lines that do not end the header, the reading goes on after them. -/
theorem readOn_append_eq_some {r r' : Reading} (hne : lines ≠ [])
    (h : r.line (['\n'].intercalate lines) = .more r') {below : List (List Char)} :
    readOn r (lines.length + fuel) (lines ++ below) = some (header, size) ↔
      ∃ r₁ n, r'.next '\n' = .more r₁ ∧ readOn r₁ fuel below = some (header, n) ∧
        size = n + lines.length := by
  induction lines generalizing r size with
  | nil => exact absurd rfl hne
  | cons line rest ih =>
    rw [List.length_cons, Nat.add_right_comm, List.cons_append, readOn_cons_eq_some]
    cases rest with
    | nil =>
      rw [List.intercalate_singleton] at h
      simp [h]
    | cons next rest =>
      rw [List.intercalate_cons_cons, List.append_assoc, List.singleton_append,
        Reading.line_append_cons_eq_more] at h
      obtain ⟨r₁, r₂, hline, hnext, h⟩ := h
      constructor
      · rintro (⟨hdone, -⟩ | ⟨s₁, s₂, n, hline', hnext', hread, rfl⟩)
        · cases hline.symm.trans hdone
        · obtain rfl := Step.more.inj (hline.symm.trans hline')
          obtain rfl := Step.more.inj (hnext.symm.trans hnext')
          obtain ⟨r₃, m, hafter, hbelow, rfl⟩ := (ih (List.cons_ne_nil _ _) h).1 hread
          exact ⟨r₃, m, hafter, hbelow, rfl⟩
      · rintro ⟨r₃, m, hafter, hbelow, rfl⟩
        exact .inr ⟨r₁, r₂, _, hline, hnext,
          (ih (List.cons_ne_nil _ _) h).2 ⟨r₃, m, hafter, hbelow, rfl⟩, rfl⟩

/-! ## Over brackets and quotes -/

/-- What the reader of a header knows of brackets and quotes: how many brackets are open, and
which quote. -/
structure HeaderLevel where
  depth : Nat
  quote : Option Char
deriving DecidableEq, Repr

def HeaderLevel.outside : HeaderLevel := ⟨0, none⟩

/-- One character further, unless it closes a bracket that is not open. -/
def HeaderLevel.next? (l : HeaderLevel) (c : Char) : Option HeaderLevel :=
  match l.quote with
  | some q => some { l with quote := if c = q then none else some q }
  | none =>
    if c = '"' || c = '\'' then some { l with quote := some c }
    else if c = '(' || c = '[' || c = '\x7b' then some { l with depth := l.depth + 1 }
    else if c = ')' || c = ']' || c = '\x7d' then
      if l.depth = 0 then none else some { l with depth := l.depth - 1 }
    else some l

/-- All brackets and quotes that open in the text, as a header reads it, close in it. -/
def IsHeaderLevel (s : List Char) : Prop := ComesBack HeaderLevel.next? .outside s

instance (s : List Char) : Decidable (IsHeaderLevel s) :=
  inferInstanceAs (Decidable (ComesBack _ _ _))

theorem IsHeaderLevel.of_not_mark {s : List Char} (h : ∀ c ∈ s, isMark c = false) :
    IsHeaderLevel s := by
  refine .of_forall fun c hc => ?_
  have hc := h c hc
  simp only [isMark, isQuoteMark, isOpening, isClosing, Bool.or_eq_false_iff,
    decide_eq_false_iff_not] at hc
  simp [HeaderLevel.next?, HeaderLevel.outside, hc]

/-- The number of brackets that are open at a place when all others are closed. -/
def Place.base : Place → Nat
  | .inside => 1
  | _ => 0

/-- Inside brackets the reader of a level text sees the same further up. -/
theorem foldlM_next?_deeper {s : List Char} {l l' : HeaderLevel}
    (h : s.foldlM HeaderLevel.next? l = some l') (n : Nat) :
    s.foldlM HeaderLevel.next? { l with depth := l.depth + n } =
      some { l' with depth := l'.depth + n } := by
  induction s generalizing l with
  | nil =>
    obtain rfl := Option.some.inj h
    rfl
  | cons c s ih =>
    rw [List.foldlM_cons] at h ⊢
    obtain ⟨l₁, hl₁, h⟩ := Option.bind_eq_some_iff.1 h
    have hnext : HeaderLevel.next? { l with depth := l.depth + n } c =
        some { l₁ with depth := l₁.depth + n } := by
      unfold HeaderLevel.next? at hl₁ ⊢
      grind
    rw [hnext]
    exact ih h

namespace Reading

/-- All characters are taken into the texts to which they belong. -/
def keepAll (r : Reading) (s : List Char) : Reading := s.foldl keep r

/-- The reading with brackets and quotes as the level says, above those of its place. -/
def at_ (r : Reading) (l : HeaderLevel) : Reading :=
  { r with depth := r.place.base + l.depth, quote := l.quote }

@[simp] theorem keep_place (r : Reading) (c : Char) : (r.keep c).place = r.place := by
  unfold keep
  cases h : r.place <;> rfl

@[simp] theorem keep_depth (r : Reading) (c : Char) : (r.keep c).depth = r.depth := by
  unfold keep
  cases h : r.place <;> rfl

@[simp] theorem keep_quote (r : Reading) (c : Char) : (r.keep c).quote = r.quote := by
  unfold keep
  cases h : r.place <;> rfl

theorem keep_at (r : Reading) (l : HeaderLevel) (c : Char) :
    (r.at_ l).keep c = (r.keep c).at_ l := by
  unfold keep at_
  cases h : r.place <;> simp

theorem keepAll_inside {r : Reading} (h : r.place = .inside) (s : List Char) :
    r.keepAll s = { r with text := s.reverse ++ r.text, params := s.reverse ++ r.params } := by
  induction s generalizing r with
  | nil => rfl
  | cons c s ih =>
    rw [keepAll, List.foldl_cons, ← keepAll, ih (by rw [keep_place, h])]
    simp [keep, h]

theorem keepAll_after {r : Reading} (h : r.place = .after) (s : List Char) :
    r.keepAll s = { r with text := s.reverse ++ r.text, tail := s.reverse ++ r.tail } := by
  induction s generalizing r with
  | nil => rfl
  | cons c s ih =>
    rw [keepAll, List.foldl_cons, ← keepAll, ih (by rw [keep_place, h])]
    simp [keep, h]

/-- Before the parentheses, characters that are no marks are taken as they come. -/
theorem line_before {r : Reading} {s : List Char} (hquote : r.quote = none)
    (hplace : r.place = .before) (h : ∀ c ∈ s, isMark c = false ∧ c ≠ ':' ∧ c ≠ '#') :
    r.line s = .more { r with text := s.reverse ++ r.text } := by
  induction s generalizing r with
  | nil => rfl
  | cons c s ih =>
    obtain ⟨⟨hmark, hcolon, hhash⟩, hs⟩ := List.forall_mem_cons.1 h
    simp only [isMark, isQuoteMark, isOpening, isClosing, Bool.or_eq_false_iff,
      decide_eq_false_iff_not] at hmark
    have hnext : r.next c = .more { r with text := c :: r.text } := by
      simp [next, hquote, hmark, hcolon, hhash, keep, hplace]
    have hrest := ih (r := { r with text := c :: r.text }) hquote hplace hs
    rw [line, hnext]
    dsimp only
    rw [hrest, List.reverse_cons, List.append_assoc, List.singleton_append]

/-- Between and after the parentheses a character is taken as its level says, unless it ends the
header. -/
theorem next_at {r : Reading} {l l' : HeaderLevel} {c : Char} (hplace : r.place ≠ .before)
    (h : l.next? c = some l') (hfree : r.place = .after → l = .outside → c ≠ ':' ∧ c ≠ '#') :
    (r.at_ l).next c = .more ((r.keep c).at_ l') := by
  obtain ⟨depth, quote⟩ := l
  have hat : (r.at_ ⟨depth, quote⟩).quote = quote := rfl
  cases quote with
  | some q =>
    obtain rfl := Option.some.inj h
    rw [next, hat]
    dsimp only
    rw [keep_at]
    rfl
  | none =>
    have hend : (r.at_ ⟨depth, none⟩).depth = 0 → c ≠ ':' ∧ c ≠ '#' := by
      intro hzero
      have hzero : (r.place.base + depth : Int) = 0 := hzero
      cases hp : r.place with
      | before => exact absurd hp hplace
      | inside => rw [hp] at hzero; simp only [Place.base] at hzero; omega
      | after =>
        have hdepth : depth = 0 := by omega
        exact hfree hp (by rw [hdepth, HeaderLevel.outside])
    have hclose : (r.at_ ⟨depth, none⟩).depth = 1 → (r.at_ ⟨depth, none⟩).place = .inside →
        depth = 0 := by
      intro hone hp
      have hone : (r.place.base + depth : Int) = 1 := hone
      have hp : r.place = .inside := hp
      rw [hp, Place.base] at hone
      omega
    simp only [HeaderLevel.next?] at h
    rw [next, hat]
    dsimp only
    rw [keep_at]
    have hhash : ¬(decide (c = '#') && (r.at_ ⟨depth, none⟩).depth == 0) = true := by
      simpa using fun hc hzero => (hend hzero).2 hc
    have hcolon : ¬(decide (c = ':') && (r.at_ ⟨depth, none⟩).depth == 0) = true := by
      simpa using fun hc hzero => (hend hzero).1 hc
    split at h
    · obtain rfl := Option.some.inj h
      rw [if_pos ‹_›]
      rfl
    rw [if_neg ‹_›, if_neg hhash, if_neg hcolon]
    split at h
    · obtain rfl := Option.some.inj h
      have hopens : ((r.at_ ⟨depth, none⟩).place == .before) = false := by simpa [at_] using hplace
      rw [if_pos ‹_›, hopens, Bool.and_false]
      simp [at_, Int.add_assoc]
    rw [if_neg ‹_›]
    split at h
    · split at h
      · cases h
      · rename_i hdepth
        obtain rfl := Option.some.inj h
        have hcloses : ¬(decide (c = ')') && (r.at_ ⟨depth, none⟩).depth == 1 &&
            (r.at_ ⟨depth, none⟩).place == .inside) = true := by
          simpa using fun _ hone hp => hdepth (hclose hone hp)
        have hsub : ((depth - 1 : Nat) : Int) = depth - 1 := by omega
        rw [if_pos ‹_›, if_neg hcloses]
        simp [at_, hsub, Int.add_sub_assoc]
    · obtain rfl := Option.some.inj h
      rw [if_neg ‹_›]

theorem line_at {r : Reading} {l l' : HeaderLevel} {s : List Char} (hplace : r.place ≠ .before)
    (h : s.foldlM HeaderLevel.next? l = some l')
    (hfree : r.place = .after → ∀ a c b, s = a ++ c :: b →
      a.foldlM HeaderLevel.next? l = some .outside → c ≠ ':' ∧ c ≠ '#') :
    (r.at_ l).line s = .more ((r.keepAll s).at_ l') := by
  induction s generalizing r l with
  | nil =>
    obtain rfl := Option.some.inj h
    rfl
  | cons c s ih =>
    rw [List.foldlM_cons] at h
    obtain ⟨l₁, hl₁, h⟩ := Option.bind_eq_some_iff.1 h
    have hnext := next_at hplace hl₁ fun hp hl => hfree hp [] c s rfl (congrArg some hl)
    rw [line, hnext]
    refine ih (by rwa [keep_place]) h fun hp a d b hs hopen => ?_
    refine hfree (by rwa [keep_place] at hp) (c :: a) d b (by rw [hs, List.cons_append]) ?_
    rw [List.foldlM_cons, hl₁]
    exact hopen

/-- When no bracket is open above those of its place, a reading is as its place says. -/
theorem at_outside {r : Reading} (hdepth : r.depth = r.place.base) (hquote : r.quote = none) :
    r.at_ .outside = r := by
  unfold at_
  rw [HeaderLevel.outside, ← hquote, Int.natCast_zero, Int.add_zero, ← hdepth]

/-- A level text between the parentheses, in further brackets or not, belongs to the parameters. -/
theorem line_inside {r : Reading} {s : List Char} (hplace : r.place = .inside)
    (hdepth : 0 < r.depth) (hquote : r.quote = none) (h : IsHeaderLevel s) :
    r.line s = .more { r with text := s.reverse ++ r.text, params := s.reverse ++ r.params } := by
  have hat : ∀ text params, { r with text := text, params := params }.at_
      ⟨(r.depth - 1).toNat, none⟩ = { r with text := text, params := params } := by
    intro text params
    have hbase : ((r.place.base : Nat) : Int) + ((r.depth - 1).toNat : Int) = r.depth := by
      rw [hplace, Place.base]
      omega
    unfold at_
    rw [hquote, hbase]
  have hline := line_at (r := r) (by simp [hplace]) (foldlM_next?_deeper h (r.depth - 1).toNat)
    (by simp [hplace])
  simp only [HeaderLevel.outside, Nat.zero_add] at hline
  rw [keepAll_inside hplace, hat, hat] at hline
  exact hline

/-- A level text after the parentheses, with no mark outside that ends the header, belongs to the
tail. -/
theorem line_after {r : Reading} {s : List Char} (hplace : r.place = .after) (hdepth : r.depth = 0)
    (hquote : r.quote = none) (h : IsHeaderLevel s)
    (hcolon : ¬StandsOutside HeaderLevel.next? .outside ':' s)
    (hhash : ¬StandsOutside HeaderLevel.next? .outside '#' s) :
    r.line s = .more { r with text := s.reverse ++ r.text, tail := s.reverse ++ r.tail } := by
  have hbase : r.depth = r.place.base := by rw [hdepth, hplace]; rfl
  have hline := line_at (r := r) (by simp [hplace]) h fun _ a c b hs hopen =>
    ⟨fun hc => hcolon ⟨a, b, hc ▸ hs, hopen⟩, fun hc => hhash ⟨a, b, hc ▸ hs, hopen⟩⟩
  rw [at_outside hbase hquote, keepAll_after hplace] at hline
  exact hline.trans (congrArg Step.more (at_outside hbase hquote))

end Reading

end CodeSurvey.Python
