-- A line of Go as its lexical rules cut it: literals between marks, a comment, and characters
-- that stand for themselves. Only the braces among the latter open and close blocks. The survey
-- counts the same braces on a line whose literals have nothing in them that it takes for a mark.
import CodeSurvey.Go.Block
import CodeSurvey.Text.Nested
import CodeSurvey.Proofs.Text.Blank

namespace CodeSurvey.Go

open Text

/-! ## Literals -/

/-- A text with escapes, a raw text, or a rune. -/
inductive Quoting where
  | text
  | raw
  | rune
deriving DecidableEq, Repr

/-- The mark at both ends of a literal. -/
def Quoting.mark : Quoting → Char
  | .text => '"'
  | .raw => Char.ofNat 0x60
  | .rune => '\''

/-- The mark stands in the text only where a backslash takes it along, and no backslash is left
at the end to take the mark behind the text. -/
def isEscaped (mark : Char) : List Char → Bool
  | [] => true
  | '\\' :: _ :: r => isEscaped mark r
  | c :: r => c ≠ '\\' && c ≠ mark && isEscaped mark r

/-- The text stands between the marks of a literal. Raw texts have no escapes. -/
def Quoting.Holds (q : Quoting) (s : List Char) : Prop :=
  match q with
  | .raw => q.mark ∉ s
  | .text | .rune => isEscaped q.mark s = true

instance (q : Quoting) (s : List Char) : Decidable (q.Holds s) := by
  unfold Quoting.Holds
  cases q <;> exact inferInstance

structure Literal where
  quoting : Quoting
  text : List Char
  holds : quoting.Holds text
deriving DecidableEq

namespace Literal

def write (l : Literal) : List Char := l.quoting.mark :: (l.text ++ [l.quoting.mark])

/-- The survey reads over the literal: it has no quotation mark, no two slashes in a row, and is
no brace between the marks of a rune. -/
structure IsTame (l : Literal) : Prop where
  no_mark : ∀ c ∈ l.text, c ≠ '"' ∧ c.toNat ≠ 0x60
  no_brace : l.quoting = .rune → ∀ c ∈ l.text, c ≠ '\x7b' ∧ c ≠ '\x7d'
  no_slashes : l.text.IsChain fun a b => a = '/' → b ≠ '/'

-- The characters of the text are looked at, not all that there are.
instance (l : Literal) : Decidable l.IsTame :=
  have (p : Char → Prop) [DecidablePred p] : Decidable (∀ c ∈ l.text, p c) := List.decidableBAll p _
  decidable_of_iff (_ ∧ _ ∧ _) ⟨fun ⟨h₁, h₂, h₃⟩ => ⟨h₁, h₂, h₃⟩,
    fun h => ⟨h.no_mark, h.no_brace, h.no_slashes⟩⟩

end Literal

/-! ## Lines -/

/-- A literal, or a character outside of all literals. -/
inductive Lexeme where
  | code (c : Char) (h : isQuoteMark c = false)
  | literal (l : Literal)

namespace Lexeme

def write : Lexeme → List Char
  | .code c _ => [c]
  | .literal l => l.write

def slash : Lexeme := .code '/' (by decide)

def opening : Lexeme := .code '\x7b' (by decide)

/-- The two lexemes do not begin a comment. -/
def Apart (a b : Lexeme) : Prop := a.write = ['/'] → b.write ≠ ['/'] ∧ b.write ≠ ['*']

instance (a b : Lexeme) : Decidable (Apart a b) := inferInstanceAs (Decidable (_ → _))

/-- The number of open blocks behind the lexeme. Where none is open there is no brace. -/
def next? (depth : Nat) : Lexeme → Option Nat
  | .literal _ => some depth
  | .code c _ =>
    if c = '\x7b' then if depth = 0 then none else some (depth + 1)
    else if c = '\x7d' then if depth = 0 then none else some (depth - 1)
    else some depth

def IsTame : Lexeme → Prop
  | .code _ _ => True
  | .literal l => l.IsTame

instance : (x : Lexeme) → Decidable x.IsTame
  | .code _ _ => inferInstanceAs (Decidable True)
  | .literal l => inferInstanceAs (Decidable l.IsTame)

end Lexeme

/-- Lexemes one after the other, as they are written. -/
def written (lexemes : List Lexeme) : List Char := lexemes.flatMap (·.write)

/-- The lexemes of a line, and the text behind the slashes of its comment. -/
structure Line where
  lexemes : List Lexeme
  comment : Option (List Char)
  apart : (lexemes ++ (comment.map fun _ => Lexeme.slash).toList).IsChain Lexeme.Apart

def Line.write (l : Line) : List Char :=
  written l.lexemes ++ (l.comment.map fun text => '/' :: '/' :: text).getD []

def Line.IsTame (l : Line) : Prop := ∀ x ∈ l.lexemes, x.IsTame

instance (l : Line) : Decidable l.IsTame := inferInstanceAs (Decidable (∀ x ∈ l.lexemes, _))

/-! ## Where a comment begins -/

namespace Lexeme

theorem write_ne_nil (x : Lexeme) : x.write ≠ [] := by
  cases x <;> exact List.cons_ne_nil _ _

theorem isChain_write {x : Lexeme} (h : x.IsTame) :
    x.write.IsChain fun a b => a = '/' → b ≠ '/' := by
  cases x with
  | code c => exact .singleton c
  | literal l =>
    have hmark : l.quoting.mark ≠ '/' := by cases l.quoting <;> decide
    have hend : (l.text ++ [l.quoting.mark]).IsChain fun a b => a = '/' → b ≠ '/' := by
      refine List.IsChain.append h.no_slashes (.singleton _) ?_
      rintro a - b ⟨⟩ -
      exact hmark
    exact hend.cons fun b _ heq => absurd heq hmark

/-- Between two lexemes that do not begin a comment there are no two slashes. -/
theorem Apart.slashes {x y : Lexeme} (h : Apart x y) :
    ∀ a ∈ x.write.getLast?, ∀ b ∈ y.write.head?, a = '/' → b ≠ '/' := by
  have hmark : ∀ {q : Quoting}, q.mark ≠ '/' := by rintro ⟨⟩ <;> decide
  rintro a ha b hb rfl rfl
  cases x with
  | literal l =>
    rw [write, Literal.write, List.getLast?_cons] at ha
    simp only [List.getLast?_append, List.getLast?_singleton, Option.some_or, Option.getD_some,
      Option.mem_some_iff] at ha
    exact hmark ha
  | code c _ =>
    obtain rfl := Option.some.inj ha
    cases y with
    | literal l => exact hmark (Option.some.inj hb)
    | code d _ =>
      obtain rfl := Option.some.inj hb
      exact (h rfl).1 rfl

end Lexeme

namespace Line

variable {l : Line}

theorem isChain_written {lexemes : List Lexeme} (happart : lexemes.IsChain Lexeme.Apart)
    (h : ∀ x ∈ lexemes, x.IsTame) : (written lexemes).IsChain fun a b => a = '/' → b ≠ '/' := by
  have hnil : [] ∉ lexemes.map Lexeme.write := by
    intro hmem
    obtain ⟨x, -, hx⟩ := List.mem_map.1 hmem
    exact x.write_ne_nil hx
  rw [written, List.flatMap_def, List.isChain_flatten hnil, List.forall_mem_map, List.isChain_map]
  exact ⟨fun x hx => Lexeme.isChain_write (h x hx), happart.imp fun _ _ => Lexeme.Apart.slashes⟩

/-- What stands before the first two slashes of a tame line are its lexemes. -/
theorem before_write (h : l.IsTame) : before ['/', '/'] l.write = written l.lexemes := by
  have hall : ∀ x ∈ l.lexemes ++ (l.comment.map fun _ => Lexeme.slash).toList, x.IsTame := by
    intro x hx
    rcases List.mem_append.1 hx with hx | hx
    · exact h x hx
    · obtain ⟨-, -, rfl⟩ := Option.map_eq_some_iff.1 (Option.mem_toList.1 hx)
      exact trivial
  have hchain := isChain_written l.apart hall
  unfold write
  cases hcomment : l.comment with
  | none =>
    rw [hcomment, Option.map_none, Option.toList_none, List.append_nil] at hchain
    exact before_pair (by simpa using hchain) rfl
  | some text =>
    rw [hcomment, written, List.flatMap_append] at hchain
    exact before_pair hchain rfl

end Line

/-! ## Braces -/

namespace Braces

/-- The braces behind one lexeme. -/
def past (b : Braces) : Lexeme → Braces
  | .literal _ => b
  | .code c _ =>
    if c = '\x7b' then ⟨b.depth + 1, true⟩
    else if c = '\x7d' then { b with depth := b.depth - 1 }
    else b

variable {b : Braces}

theorem over_append {inString : Bool} {s : List Char}
    (hmark : ∀ c ∈ s, c ≠ '"' ∧ c.toNat ≠ 0x60)
    (hbrace : inString = false → ∀ c ∈ s, c ≠ '\x7b' ∧ c ≠ '\x7d') (t : List Char) :
    b.over inString (s ++ t) = b.over inString t := by
  induction s with
  | nil => rfl
  | cons c s ih =>
    obtain ⟨⟨hquote, hback⟩, hmark⟩ := List.forall_mem_cons.1 hmark
    have ih := ih hmark fun hout d hd => hbrace hout d (List.mem_cons_of_mem c hd)
    rw [List.cons_append, Braces.over]
    cases inString with
    | true => simpa [hquote, hback] using ih
    | false =>
      obtain ⟨hopen, hclose⟩ := hbrace rfl c List.mem_cons_self
      simpa [hquote, hback, hopen, hclose] using ih

/-- A quotation mark that the survey takes notice of turns a string on or off. -/
theorem over_mark {c : Char} (h : c = '"' ∨ c.toNat = 0x60) (inString : Bool) (t : List Char) :
    b.over inString (c :: t) = b.over (!inString) t := by
  rw [Braces.over, if_pos (by simpa using h)]

/-- A tame literal is passed over. -/
theorem over_literal {l : Literal} (h : l.IsTame) (t : List Char) :
    b.over false (l.write ++ t) = b.over false t := by
  have hwrite : l.write ++ t = l.quoting.mark :: (l.text ++ l.quoting.mark :: t) := by
    simp [Literal.write]
  cases hq : l.quoting with
  | rune =>
    have hapostrophe : ∀ t, b.over false ('\'' :: t) = b.over false t :=
      over_append (s := ['\'']) (List.forall_mem_singleton.2 (by decide))
        fun _ => List.forall_mem_singleton.2 (by decide)
    rw [hwrite, hq]
    exact (hapostrophe _).trans
      ((over_append h.no_mark (fun _ => h.no_brace hq) _).trans (hapostrophe t))
  | text | raw =>
    have hmark : l.quoting.mark = '"' ∨ l.quoting.mark.toNat = 0x60 := by rw [hq]; decide
    rw [hwrite, over_mark hmark, over_append h.no_mark (by simp), over_mark hmark]
    rfl

theorem over_lexeme {x : Lexeme} (h : x.IsTame) (t : List Char) :
    b.over false (x.write ++ t) = (b.past x).over false t := by
  cases x with
  | literal l => exact over_literal h t
  | code c hc =>
    simp only [isQuoteMark, Bool.or_eq_false_iff, decide_eq_false_iff_not] at hc
    rw [Lexeme.write, List.singleton_append, Braces.over, past, if_neg (by simp [hc])]
    by_cases hopen : c = '\x7b'
    · simp [hopen]
    · by_cases hclose : c = '\x7d'
      · simp [hclose]
      · simp [hopen, hclose]

theorem over_written {lexemes : List Lexeme} (h : ∀ x ∈ lexemes, x.IsTame) :
    b.over false (written lexemes) = lexemes.foldl past b := by
  induction lexemes generalizing b with
  | nil => rfl
  | cons x lexemes ih =>
    obtain ⟨hx, h⟩ := List.forall_mem_cons.1 h
    rw [written, List.flatMap_cons, over_lexeme hx, List.foldl_cons]
    exact ih h

/-- The survey counts the braces of a tame line. -/
theorem line_write {l : Line} (h : l.IsTame) : b.line l.write = l.lexemes.foldl past b := by
  rw [line, Line.before_write h, over_written h]

/-- Where `k` more are counted than blocks are open, that is so behind the lexeme too. -/
theorem past_of_next? {x : Lexeme} {depth depth' : Nat} (h : x.next? depth = some depth') (k : Int)
    (opened : Bool) : ∃ opened', past ⟨depth + k, opened⟩ x = ⟨depth' + k, opened'⟩ ∧
      (opened = true → opened' = true) := by
  cases x with
  | literal l =>
    obtain rfl := Option.some.inj h
    exact ⟨opened, rfl, id⟩
  | code c _ =>
    rw [Lexeme.next?] at h
    rw [past]
    split_ifs at h ⊢ with hopen hzero hclose hzero
    · have hdepth : (depth : Int) + k + 1 = depth' + k := by
        rw [← Option.some.inj h]
        omega
      exact ⟨true, congrArg (Braces.mk · true) hdepth, fun _ => rfl⟩
    · have hdepth : (depth : Int) + k - 1 = depth' + k := by
        rw [← Option.some.inj h]
        omega
      exact ⟨opened, congrArg (Braces.mk · opened) hdepth, id⟩
    · exact ⟨opened, by rw [Option.some.inj h], id⟩

theorem foldl_past {lexemes : List Lexeme} {depth depth' : Nat}
    (h : lexemes.foldlM Lexeme.next? depth = some depth') (k : Int) (opened : Bool) :
    ∃ opened', lexemes.foldl past ⟨depth + k, opened⟩ = ⟨depth' + k, opened'⟩ ∧
      (opened = true → opened' = true) := by
  induction lexemes generalizing depth opened with
  | nil =>
    obtain rfl := Option.some.inj h
    exact ⟨opened, rfl, id⟩
  | cons x lexemes ih =>
    rw [List.foldlM_cons] at h
    obtain ⟨next, hnext, h⟩ := Option.bind_eq_some_iff.1 h
    obtain ⟨o, ho, hkept⟩ := past_of_next? hnext k opened
    obtain ⟨opened', hfold, hkept'⟩ := ih h o
    exact ⟨opened', by rw [List.foldl_cons, ho, hfold], hkept' ∘ hkept⟩

end Braces

end CodeSurvey.Go
