-- The types of Go as they are written: tokens, the grammar of types over them, and texts with
-- blanks between the tokens. The survey's reader of brackets goes over a type without meeting a
-- comma that cuts, but it takes each arrow of a channel for a bracket, which nothing closes.
import CodeSurvey.Proofs.Go.Lexical
import CodeSurvey.Proofs.Text.Name
import CodeSurvey.Proofs.Text.Nested

namespace CodeSurvey.Go

open Text

/-! ## Tokens -/

inductive Bracket where
  | round
  | square
  | curly
deriving DecidableEq, Repr

def Bracket.opening : Bracket → Char
  | .round => '('
  | .square => '['
  | .curly => '\x7b'

def Bracket.closing : Bracket → Char
  | .round => ')'
  | .square => ']'
  | .curly => '\x7d'

/-- A name, a keyword or a number. -/
structure Word where
  text : List Char
  ne_nil : text ≠ []
  isWord : text.all isWordChar = true
deriving DecidableEq

/-- The signs of types, and those of the lengths of arrays. Shifts are none of them. -/
def signs : List Char := ['.', ';', '*', '|', '~', '+', '-', '/', '%', '&', '^']

/-- A token of a type. A backslash at the end of a literal is one of a pair, also in a raw text. -/
inductive Token where
  | word (w : Word)
  | opening (b : Bracket)
  | closing (b : Bracket)
  | comma
  | sign (c : Char) (h : c ∈ signs)
  | arrow
  | dots
  | literal (l : Literal) (h : isEscaped l.quoting.mark l.text = true)
deriving DecidableEq

namespace Token

def write : Token → List Char
  | .word w => w.text
  | .opening b => [b.opening]
  | .closing b => [b.closing]
  | .comma => [',']
  | .sign c _ => [c]
  | .arrow => ['<', '-']
  | .dots => ['.', '.', '.']
  | .literal l _ => l.write

def period : Token := .sign '.' (by decide)

def semicolon : Token := .sign ';' (by decide)

def star : Token := .sign '*' (by decide)

def bar : Token := .sign '|' (by decide)

def tilde : Token := .sign '~' (by decide)

def map : Token := .word ⟨"map".toList, by decide, by decide +kernel⟩

def chan : Token := .word ⟨"chan".toList, by decide, by decide +kernel⟩

def func : Token := .word ⟨"func".toList, by decide, by decide +kernel⟩

def struct : Token := .word ⟨"struct".toList, by decide, by decide +kernel⟩

def interface : Token := .word ⟨"interface".toList, by decide, by decide +kernel⟩

/-- Tokens with brackets around them. -/
def enclosed (b : Bracket) (ts : List Token) : List Token := .opening b :: (ts ++ [.closing b])

/-- Names with commas between them. -/
def names (ws : List Word) : List Token := (ws.map Token.word).intersperse .comma

end Token

/-! ## The grammar -/

/-- What tokens stand for: the name of a type, a type, the list of a function's parameters or of
the types that a generic type is given, with one entry of it, what follows the keyword of a
function, the fields of a struct, the elements of an interface, with a union of types, or the length
of an array. -/
inductive Category where
  | typeName
  | type
  | list
  | entry
  | signature
  | fields
  | elements
  | union
  | length
deriving DecidableEq, Repr

open Token in
/-- The grammar of types. Semicolons may be left out at the end of a line, so they are not asked
for between fields and elements. -/
inductive IsPhrase : Category → List Token → Prop
  | name (w : Word) : IsPhrase .typeName [.word w]
  | qualified (package w : Word) : IsPhrase .typeName [.word package, period, .word w]
  | named {t} : IsPhrase .typeName t → IsPhrase .type t
  | generic {t args} : IsPhrase .typeName t → IsPhrase .list args →
      IsPhrase .type (t ++ enclosed .square args)
  | parenthesized {t} : IsPhrase .type t → IsPhrase .type (enclosed .round t)
  | pointer {t} : IsPhrase .type t → IsPhrase .type (star :: t)
  | slice {t} : IsPhrase .type t → IsPhrase .type (enclosed .square [] ++ t)
  | array {n t} : IsPhrase .length n → IsPhrase .type t → IsPhrase .type (enclosed .square n ++ t)
  | map {k v} : IsPhrase .type k → IsPhrase .type v →
      IsPhrase .type (Token.map :: (enclosed .square k ++ v))
  | channel {t} : IsPhrase .type t → IsPhrase .type (chan :: t)
  | sendOnly {t} : IsPhrase .type t → IsPhrase .type (chan :: arrow :: t)
  | receiveOnly {t} : IsPhrase .type t → IsPhrase .type (arrow :: chan :: t)
  | func {s} : IsPhrase .signature s → IsPhrase .type (Token.func :: s)
  | struct {f} : IsPhrase .fields f → IsPhrase .type (Token.struct :: enclosed .curly f)
  | interface {e} : IsPhrase .elements e → IsPhrase .type (Token.interface :: enclosed .curly e)
  | noEntry : IsPhrase .list []
  | lastEntry {e} : IsPhrase .entry e → IsPhrase .list e
  | entries {e es} : IsPhrase .entry e → IsPhrase .list es → IsPhrase .list (e ++ comma :: es)
  | entry {name dots t} : (name = [] ∨ ∃ w, name = [.word w]) → (dots = [] ∨ dots = [.dots]) →
      IsPhrase .type t → IsPhrase .entry (name ++ dots ++ t)
  | procedure {ps} : IsPhrase .list ps → IsPhrase .signature (enclosed .round ps)
  | returning {ps t} : IsPhrase .list ps → IsPhrase .type t →
      IsPhrase .signature (enclosed .round ps ++ t)
  | returningList {ps rs} : IsPhrase .list ps → IsPhrase .list rs →
      IsPhrase .signature (enclosed .round ps ++ enclosed .round rs)
  | noField : IsPhrase .fields []
  | field (ws : List Word) {t tag f} : IsPhrase .type t → (tag = [] ∨ ∃ l h, tag = [.literal l h]) →
      IsPhrase .fields f → IsPhrase .fields (names ws ++ t ++ tag ++ f)
  | fieldEnd {f} : IsPhrase .fields f → IsPhrase .fields (semicolon :: f)
  | noElement : IsPhrase .elements []
  | method (w : Word) {s e} : IsPhrase .signature s → IsPhrase .elements e →
      IsPhrase .elements (.word w :: (s ++ e))
  | constraint {u e} : IsPhrase .union u → IsPhrase .elements e → IsPhrase .elements (u ++ e)
  | elementEnd {e} : IsPhrase .elements e → IsPhrase .elements (semicolon :: e)
  | term {front t} : (front = [] ∨ front = [tilde]) → IsPhrase .type t → IsPhrase .union (front ++ t)
  | union {u v} : IsPhrase .union u → IsPhrase .union v → IsPhrase .union (u ++ bar :: v)
  | noLength : IsPhrase .length []
  | word (w : Word) {n} : IsPhrase .length n → IsPhrase .length (.word w :: n)
  | operator {c n} (h : c ∈ signs) : IsPhrase .length n → IsPhrase .length (.sign c h :: n)
  | literal {l n} (h : isEscaped l.quoting.mark l.text = true) : IsPhrase .length n →
      IsPhrase .length (.literal l h :: n)
  | argument {n} : IsPhrase .length n → IsPhrase .length (comma :: n)
  | group (b : Bracket) {m n} : IsPhrase .length m → IsPhrase .length n →
      IsPhrase .length (enclosed b m ++ n)

/-! ## Brackets -/

/-- The depth behind the token, for a reader that takes an arrow for a bracket. Outside of all
brackets there is no comma and no bracket that closes. -/
def Token.level? (depth : Nat) : Token → Option Nat
  | .opening _ | .arrow => some (depth + 1)
  | .closing _ => if depth = 0 then none else some (depth - 1)
  | .comma => if depth = 0 then none else some depth
  | .word _ | .sign _ _ | .dots | .literal _ _ => some depth

/-- From `base` on, the tokens leave the reader as far down as it was and one further for each
arrow. -/
def Sinks (base : Nat) (ts : List Token) : Prop :=
  ∀ depth, base ≤ depth → ts.foldlM Token.level? depth = some (depth + ts.count .arrow)

namespace Sinks

variable {base : Nat} {ts us : List Token}

theorem nil : Sinks base [] := fun _ _ => rfl

theorem mono {base' : Nat} (h : Sinks base ts) (hle : base ≤ base') : Sinks base' ts :=
  fun depth hdepth => h depth (Nat.le_trans hle hdepth)

theorem append (hts : Sinks base ts) (hus : Sinks base us) : Sinks base (ts ++ us) := by
  intro depth hdepth
  rw [List.foldlM_append, hts depth hdepth, List.count_append, ← Nat.add_assoc]
  exact hus _ (by omega)

theorem word (w : Word) : Sinks base [.word w] := fun _ _ => rfl

theorem sign {c : Char} (h : c ∈ signs) : Sinks base [.sign c h] := fun _ _ => rfl

theorem dots : Sinks base [.dots] := fun _ _ => rfl

theorem literal {l : Literal} (h : isEscaped l.quoting.mark l.text = true) :
    Sinks base [.literal l h] :=
  fun _ _ => rfl

theorem arrow : Sinks base [.arrow] := fun _ _ => rfl

theorem comma : Sinks 1 [.comma] := by
  intro depth hdepth
  have hne : depth ≠ 0 := by omega
  simp [Token.level?, hne]

/-- Behind brackets the reader is back, but for the arrows between them. -/
theorem enclosed (b : Bracket) (h : Sinks 1 ts) : Sinks base (Token.enclosed b ts) := by
  intro depth _
  have hinner := h (depth + 1) (by omega)
  have hcount : (Token.enclosed b ts).count .arrow = ts.count .arrow := by
    simp [Token.enclosed]
  have hclose : Token.level? (depth + 1 + ts.count .arrow) (.closing b) =
      some (depth + ts.count .arrow) := by
    rw [Token.level?, if_neg (by omega)]
    exact congrArg some (by omega)
  rw [hcount, Token.enclosed, List.foldlM_cons]
  change (ts ++ [Token.closing b]).foldlM Token.level? (depth + 1) = _
  rw [List.foldlM_append, hinner]
  change [Token.closing b].foldlM Token.level? (depth + 1 + ts.count Token.arrow) = _
  rw [List.foldlM_cons, hclose]
  rfl

theorem names (ws : List Word) : Sinks 1 (Token.names ws) := by
  induction ws with
  | nil => exact nil
  | cons w ws ih =>
    cases ws with
    | nil => exact word w
    | cons w' ws => exact (word w).append (comma.append ih)

end Sinks

/-- Commas stand in brackets only, but for those of lists, fields and lengths, which stand in
brackets themselves. -/
def Category.base : Category → Nat
  | .typeName | .type | .signature | .entry | .union => 0
  | .list | .fields | .elements | .length => 1

theorem IsPhrase.sinks {k : Category} {ts : List Token} (h : IsPhrase k ts) : Sinks k.base ts := by
  -- By the grammar. A phrase that may have commas of its own stands in brackets wherever it is a
  -- part of another, so that the depth there is not zero.
  induction h with
  | name w => exact .word w
  | qualified p w => exact (Sinks.word p).append ((Sinks.sign _).append (.word w))
  | named _ ih => exact ih
  | generic _ _ iht ihargs => exact iht.append (.enclosed _ ihargs)
  | parenthesized _ ih => exact .enclosed _ (ih.mono (Nat.zero_le 1))
  | pointer _ ih => exact (Sinks.sign _).append ih
  | slice _ ih => exact (Sinks.enclosed _ .nil).append ih
  | array _ _ ihn iht => exact (Sinks.enclosed _ ihn).append iht
  | map _ _ ihk ihv =>
    exact (Sinks.word _).append ((Sinks.enclosed _ (ihk.mono (Nat.zero_le 1))).append ihv)
  | channel _ ih => exact (Sinks.word _).append ih
  | sendOnly _ ih => exact (Sinks.word _).append (Sinks.arrow.append ih)
  | receiveOnly _ ih => exact Sinks.arrow.append ((Sinks.word _).append ih)
  | func _ ih => exact (Sinks.word _).append ih
  | struct _ ih => exact (Sinks.word _).append (.enclosed _ ih)
  | interface _ ih => exact (Sinks.word _).append (.enclosed _ ih)
  | noEntry => exact .nil
  | lastEntry _ ih => exact ih.mono (Nat.zero_le 1)
  | entries _ _ ihe ihes => exact (ihe.mono (Nat.zero_le 1)).append (Sinks.comma.append ihes)
  | entry hname hdots _ ih =>
    refine Sinks.append (Sinks.append ?_ ?_) ih
    · rcases hname with rfl | ⟨w, rfl⟩
      · exact .nil
      · exact .word w
    · rcases hdots with rfl | rfl
      · exact .nil
      · exact .dots
  | procedure _ ih => exact .enclosed _ ih
  | returning _ _ ihps iht => exact (Sinks.enclosed _ ihps).append iht
  | returningList _ _ ihps ihrs => exact (Sinks.enclosed _ ihps).append (.enclosed _ ihrs)
  | noField => exact .nil
  | field ws _ htag _ iht ihf =>
    refine (((Sinks.names ws).append (iht.mono (Nat.zero_le 1))).append ?_).append ihf
    rcases htag with rfl | ⟨l, hl, rfl⟩
    · exact .nil
    · exact .literal hl
  | fieldEnd _ ih => exact (Sinks.sign _).append ih
  | noElement => exact .nil
  | method w _ _ ihs ihe =>
    exact (Sinks.word w).append ((ihs.mono (Nat.zero_le 1)).append ihe)
  | constraint _ _ ihu ihe => exact (ihu.mono (Nat.zero_le 1)).append ihe
  | elementEnd _ ih => exact (Sinks.sign _).append ih
  | term hfront _ ih =>
    refine Sinks.append ?_ ih
    rcases hfront with rfl | rfl
    · exact .nil
    · exact .sign _
  | union _ _ ihu ihv => exact ihu.append ((Sinks.sign _).append ihv)
  | noLength => exact .nil
  | word w _ ih => exact (Sinks.word w).append ih
  | operator h _ ih => exact (Sinks.sign h).append ih
  | literal h _ ih => exact (Sinks.literal h).append ih
  | argument _ ih => exact Sinks.comma.append ih
  | group b _ _ ihm ihn => exact (Sinks.enclosed b ihm).append ihn

/-! ## Ends -/

/-- The token begins types. -/
def Token.begins : Token → Bool
  | .word _ | .opening _ | .arrow | .dots => true
  | .sign c _ => c = '*'
  | .closing _ | .comma | .literal _ _ => false

/-- The token stands at the end of types. -/
def Token.ends : Token → Bool
  | .word _ | .closing _ => true
  | .opening _ | .comma | .sign _ _ | .arrow | .dots | .literal _ _ => false

/-- The tokens begin and end as types do. -/
structure Edged (ts : List Token) : Prop where
  first : ∃ x ∈ ts.head?, x.begins = true
  last : ∃ x ∈ ts.getLast?, x.ends = true

namespace Edged

variable {ts us : List Token}

theorem ne_nil (h : Edged ts) : ts ≠ [] := by
  obtain ⟨⟨x, hx, -⟩, -⟩ := h
  rintro rfl
  cases hx

theorem word (w : Word) : Edged [.word w] := ⟨⟨_, rfl, rfl⟩, ⟨_, rfl, rfl⟩⟩

theorem append (hts : Edged ts) (hus : Edged us) : Edged (ts ++ us) := by
  refine ⟨?_, ?_⟩
  · rw [List.head?_append_of_ne_nil _ hts.ne_nil]
    exact hts.first
  · rw [List.getLast?_append_of_ne_nil _ hus.ne_nil]
    exact hus.last

theorem cons {x : Token} (hx : x.begins = true) (h : Edged ts) : Edged (x :: ts) := by
  refine ⟨⟨x, rfl, hx⟩, ?_⟩
  rw [← List.singleton_append, List.getLast?_append_of_ne_nil _ h.ne_nil]
  exact h.last

theorem enclosed (b : Bracket) (ts : List Token) : Edged (Token.enclosed b ts) := by
  refine ⟨⟨_, rfl, rfl⟩, ⟨.closing b, ?_, rfl⟩⟩
  rw [Token.enclosed, ← List.cons_append]
  exact List.getLast?_concat

end Edged

theorem IsPhrase.edged {k : Category} {ts : List Token} (h : IsPhrase k ts)
    (hk : k ∈ [Category.typeName, .type, .signature]) : Edged ts := by
  induction h with
  | name w => exact .word w
  | qualified p w => exact ⟨⟨_, rfl, rfl⟩, ⟨_, rfl, rfl⟩⟩
  | named _ ih => exact ih (by simp)
  | generic _ _ iht _ => exact (iht (by simp)).append (.enclosed _ _)
  | parenthesized _ _ => exact .enclosed _ _
  | pointer _ ih => exact .cons rfl (ih (by simp))
  | slice _ ih => exact (Edged.enclosed _ _).append (ih (by simp))
  | array _ _ _ iht => exact (Edged.enclosed _ _).append (iht (by simp))
  | map _ _ _ ihv => exact .cons rfl ((Edged.enclosed _ _).append (ihv (by simp)))
  | channel _ ih => exact .cons rfl (ih (by simp))
  | sendOnly _ ih => exact .cons rfl (.cons rfl (ih (by simp)))
  | receiveOnly _ ih => exact .cons rfl (.cons rfl (ih (by simp)))
  | func _ ih => exact .cons rfl (ih (by simp))
  | struct _ _ => exact .cons rfl (.enclosed _ _)
  | interface _ _ => exact .cons rfl (.enclosed _ _)
  | procedure _ _ => exact .enclosed _ _
  | returning _ _ _ iht => exact (Edged.enclosed _ _).append (iht (by simp))
  | returningList _ _ _ _ => exact (Edged.enclosed _ _).append (.enclosed _ _)
  | noEntry | lastEntry | entries | entry | noField | field | fieldEnd | noElement | method
  | constraint | elementEnd | term | union | noLength | word | operator | literal | argument
  | group => simp at hk

end CodeSurvey.Go
