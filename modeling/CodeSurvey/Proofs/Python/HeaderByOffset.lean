-- A Python header that is cut out of its text at the offsets of its outer parentheses and of its
-- colon, over one line after the other. All offsets stand between characters and in order, so that
-- the cuts give no fault, and they give the header that is collected character by character.
import CodeSurvey.Proofs.Python.Header
import CodeSurvey.Proofs.Text.Offset

namespace CodeSurvey.Python

open Text

/-! ## Offsets in a header -/

/-- The open brackets and the open quote in a header, and the offsets of the parentheses around its
list. -/
structure Marks where
  depth : Int
  quote : Option Char
  opened : Option Nat
  closed : Option Nat

def Marks.start : Marks := ⟨0, none, none, none⟩

/-- What a character does to the marks: they go on, the header has ended, or it has no end. -/
inductive Move where
  | more (m : Marks)
  | done
  | broken

/-- One character further, that stands at the offset. -/
def Marks.next (m : Marks) (offset : Nat) (c : Char) : Move :=
  match m.quote with
  | some q => .more { m with quote := if c = q then none else some q }
  | none =>
    if c = '"' || c = '\'' then .more { m with quote := some c }
    else if c = '#' && m.depth == 0 then .broken
    else if c = ':' && m.depth == 0 then .done
    else if c = '(' || c = '[' || c = '\x7b' then
      let opens := c = '(' && m.depth == 0 && m.opened.isNone
      .more { m with depth := m.depth + 1, opened := if opens then some offset else m.opened }
    else if c = ')' || c = ']' || c = '\x7d' then
      let closes := c = ')' && m.depth - 1 == 0 && m.closed.isNone && m.opened.isSome
      .more { m with depth := m.depth - 1, closed := if closes then some offset else m.closed }
    else .more m

/-- The header of a text whose colon stands at the offset. -/
def Marks.header (m : Marks) (text : List Char) (offset : Nat) : Except Fault Header := do
  let params ←
    match m.opened, m.closed with
    | some opened, some closed => (slice text (opened + 1) closed).map some
    | _, _ => .ok none
  let tail ←
    match m.closed with
    | some closed => slice text (closed + 1) offset
    | none => .ok []
  let front ← slice text 0 offset
  return ⟨front, params, tail⟩

/-- The header of `text`, of which `rest` is left at the offset. -/
def headerFrom (text : List Char) (m : Marks) (offset : Nat) :
    List Char → Except Fault (Option Header)
  | [] => .ok none
  | c :: rest =>
    match m.next offset c with
    | .more m => headerFrom text m (offset + c.utf8Size) rest
    | .done => (m.header text offset).map some
    | .broken => .ok none

def splitHeader (text : List Char) : Except Fault (Option Header) := headerFrom text .start 0 text

/-- The header in the lines from `index` on, joined to the text of those from `start` on, and the
index of the line that it ends on. -/
def headerOver (start : Nat) (text : List Char) (index : Nat) :
    List (List Char) → Except Fault (Option (Header × Nat))
  | [] => .ok none
  | line :: rest => do
    let text := (if start < index then text ++ ['\n'] else text) ++ line
    match ← splitHeader text with
    | some header => return some (header, index)
    | none => headerOver start text (index + 1) rest

/-- The header that begins on the line `start`. -/
def headerAt (lines : List (List Char)) (start : Nat) : Except Fault (Option (Header × Nat)) :=
  let last := min (start + maxHeaderLines) lines.length
  headerOver start [] start ((lines.take last).drop start)

/-! ## What the offsets say -/

/-- The offsets of the parentheses stand where the texts of a reading begin and end. -/
def Reading.PlacedBy (r : Reading) (opened closed : Option Nat) : Prop :=
  match r.place with
  | .before => opened = none ∧ closed = none ∧ r.params = [] ∧ r.tail = []
  | .inside => ∃ a, r.text.reverse = a ++ '(' :: r.params.reverse ∧
      opened = some (byteSize a) ∧ closed = none ∧ r.tail = []
  | .after => ∃ a, r.text.reverse = a ++ '(' :: r.params.reverse ++ ')' :: r.tail.reverse ∧
      opened = some (byteSize a) ∧ closed = some (byteSize (a ++ '(' :: r.params.reverse))

namespace Reading.PlacedBy

variable {r : Reading} {opened closed : Option Nat}

theorem keep (h : r.PlacedBy opened closed) (c : Char) : (r.keep c).PlacedBy opened closed := by
  unfold PlacedBy at *
  rw [keep_place]
  unfold Reading.keep
  cases hr : r.place with
  | before =>
    rw [hr] at h
    exact h
  | inside =>
    rw [hr] at h
    obtain ⟨a, htext, hopened, hclosed, htail⟩ := h
    exact ⟨a, by simp [htext], hopened, hclosed, htail⟩
  | after =>
    rw [hr] at h
    obtain ⟨a, htext, hopened, hclosed⟩ := h
    exact ⟨a, by simp [htext], hopened, hclosed⟩

theorem isNone_opened (h : r.PlacedBy opened closed) : opened.isNone = (r.place == .before) := by
  unfold PlacedBy at h
  cases hr : r.place with
  | before => rw [hr] at h; rw [h.1]; rfl
  | inside => rw [hr] at h; obtain ⟨a, -, hopened, -⟩ := h; rw [hopened]; rfl
  | after => rw [hr] at h; obtain ⟨a, -, hopened, -⟩ := h; rw [hopened]; rfl

theorem isSome_opened (h : r.PlacedBy opened closed) :
    (closed.isNone && opened.isSome) = (r.place == .inside) := by
  unfold PlacedBy at h
  cases hr : r.place with
  | before => rw [hr] at h; rw [h.1, h.2.1]; rfl
  | inside => rw [hr] at h; obtain ⟨a, -, hopened, hclosed, -⟩ := h; rw [hopened, hclosed]; rfl
  | after => rw [hr] at h; obtain ⟨a, -, -, hclosed⟩ := h; rw [hclosed]; rfl

/-- A parenthesis that opens the list. -/
theorem opens (h : r.PlacedBy opened closed) (hplace : r.place = .before) (depth : Int) :
    Reading.PlacedBy { r.keep '(' with depth := depth, place := .inside }
      (some (byteSize r.text.reverse)) closed := by
  unfold PlacedBy at h
  rw [hplace] at h
  obtain ⟨-, hclosed, hparams, htail⟩ := h
  refine ⟨r.text.reverse, ?_, rfl, hclosed, ?_⟩
  · simp [Reading.keep, hplace, hparams]
  · simp [Reading.keep, hplace, htail]

/-- A parenthesis that closes the list. -/
theorem closes (h : r.PlacedBy opened closed) (hplace : r.place = .inside) (depth : Int) :
    Reading.PlacedBy { r with depth := depth, place := .after, text := ')' :: r.text } opened
      (some (byteSize r.text.reverse)) := by
  unfold PlacedBy at h
  rw [hplace] at h
  obtain ⟨a, htext, hopened, -, htail⟩ := h
  refine ⟨a, ?_, hopened, by rw [htext]⟩
  simp [htext, htail]

end Reading.PlacedBy

/-- The marks know what the reading does. -/
structure Reading.MarkedBy (r : Reading) (m : Marks) : Prop where
  depth : m.depth = r.depth
  quote : m.quote = r.quote
  placed : r.PlacedBy m.opened m.closed

/-- What a character does to the reading it does to the marks. -/
inductive Step.MarkedBy (r : Reading) : Step → Move → Prop
  | more {r' : Reading} {m : Marks} : r'.MarkedBy m → MarkedBy r (.more r') (.more m)
  | done : MarkedBy r (.done r.finish) .done
  | broken : MarkedBy r .broken .broken

namespace Reading.MarkedBy

variable {r : Reading} {m : Marks}

theorem start : Reading.start.MarkedBy Marks.start := ⟨rfl, rfl, rfl, rfl, rfl, rfl⟩

/-- Every character does the same to the reading and to its marks. -/
theorem next (h : r.MarkedBy m) (c : Char) :
    Step.MarkedBy r (r.next c) (m.next (byteSize r.text.reverse) c) := by
  have hkeep := h.placed.keep c
  have hdepth := keep_depth r c
  have hquote := keep_quote r c
  unfold Reading.next Marks.next
  rw [h.quote, h.depth]
  cases hr : r.quote with
  | some q => exact .more ⟨hdepth.symm, rfl, hkeep⟩
  | none =>
    rw [hr] at hquote
    dsimp only
    split
    · exact .more ⟨hdepth.symm, rfl, hkeep⟩
    split
    · exact .broken
    split
    · exact .done
    split
    · rw [h.placed.isNone_opened]
      cases hopens : (decide (c = '(') && r.depth == 0 && r.place == .before) with
      | true =>
        obtain ⟨hopens, hplace⟩ := Bool.and_eq_true_iff.1 hopens
        obtain rfl : c = '(' := of_decide_eq_true (Bool.and_eq_true_iff.1 hopens).1
        exact .more ⟨rfl, hquote.symm, h.placed.opens (by simpa using hplace) _⟩
      | false =>
        rw [if_neg Bool.false_ne_true, if_neg Bool.false_ne_true, ← keep_place r c]
        exact .more ⟨rfl, hquote.symm, hkeep⟩
    split
    · have hcloses : (decide (c = ')') && r.depth - 1 == 0 && m.closed.isNone && m.opened.isSome) =
          (decide (c = ')') && r.depth == 1 && r.place == .inside) := by
        have hzero : (r.depth - 1 == 0) = (r.depth == 1) := by grind
        rw [Bool.and_assoc, h.placed.isSome_opened, hzero]
      rw [hcloses]
      cases hin : (decide (c = ')') && r.depth == 1 && r.place == .inside) with
      | true =>
        obtain ⟨hin, hplace⟩ := Bool.and_eq_true_iff.1 hin
        obtain ⟨hc, hone⟩ := Bool.and_eq_true_iff.1 hin
        obtain rfl : c = ')' := of_decide_eq_true hc
        have hzero : r.depth - 1 = 0 := by rw [eq_of_beq hone]; rfl
        rw [if_pos rfl, if_pos rfl, hzero]
        exact .more ⟨rfl, rfl, h.placed.closes (by simpa using hplace) 0⟩
      | false =>
        rw [if_neg Bool.false_ne_true, if_neg Bool.false_ne_true]
        exact .more ⟨rfl, hquote.symm, hkeep⟩
    · exact .more ⟨h.depth.trans hdepth.symm, (h.quote.trans hr).trans hquote.symm, hkeep⟩

/-- The marks cut out what the reading has collected. -/
theorem header (h : r.MarkedBy m) (rest : List Char) :
    m.header (r.text.reverse ++ rest) (byteSize r.text.reverse) = .ok r.finish := by
  have hplaced := h.placed
  have hfront := slice_front r.text.reverse rest
  unfold Reading.PlacedBy at hplaced
  unfold Marks.header Reading.finish
  cases hr : r.place with
  | before =>
    rw [hr] at hplaced
    obtain ⟨hopened, hclosed, -, htail⟩ := hplaced
    rw [hopened, hclosed, hfront, htail]
    rfl
  | inside =>
    rw [hr] at hplaced
    obtain ⟨a, -, hopened, hclosed, htail⟩ := hplaced
    rw [hopened, hclosed, hfront, htail]
    rfl
  | after =>
    rw [hr] at hplaced
    obtain ⟨a, htext, hopened, hclosed⟩ := hplaced
    have hparams : slice (r.text.reverse ++ rest) (byteSize a + 1)
        (byteSize (a ++ '(' :: r.params.reverse)) = .ok r.params.reverse :=
      slice_eq_ok_iff.2 ⟨a ++ ['('], ')' :: r.tail.reverse ++ rest, by simp [htext], by simp; rfl,
        by simp [Nat.add_assoc]⟩
    have htail : slice (r.text.reverse ++ rest) (byteSize (a ++ '(' :: r.params.reverse) + 1)
        (byteSize r.text.reverse) = .ok r.tail.reverse :=
      slice_eq_ok_iff.2 ⟨a ++ '(' :: r.params.reverse ++ [')'], rest, by simp [htext],
        by simp [Nat.add_assoc]; rfl, by simp [htext, Nat.add_assoc]⟩
    rw [hopened, hclosed]
    dsimp only
    rw [hparams, htail, hfront]
    rfl

end Reading.MarkedBy

theorem Reading.text_next {r r' : Reading} {c : Char} (h : r.next c = .more r') :
    r'.text = c :: r.text := by
  have hkeep : (r.keep c).text = c :: r.text := by
    unfold Reading.keep
    cases r.place <;> rfl
  unfold Reading.next at h
  grind

/-! ## Headers by offset -/

/-- The header with which a reading has ended. -/
def Step.header? : Step → Option Header
  | .done header => some header
  | _ => none

theorem headerFrom_eq {r : Reading} {m : Marks} (h : r.MarkedBy m) (rest : List Char) :
    headerFrom (r.text.reverse ++ rest) m (byteSize r.text.reverse) rest =
      .ok (r.line rest).header? := by
  induction rest generalizing r m with
  | nil => rfl
  | cons c rest ih =>
    have hnext := h.next c
    have hheader := h.header (c :: rest)
    unfold headerFrom Reading.line
    revert hnext
    generalize hstep : r.next c = step, m.next (byteSize r.text.reverse) c = move
    rintro (hmore | _ | _)
    · have htext : _ = r.text.reverse ++ [c] :=
        (congrArg List.reverse (Reading.text_next hstep)).trans List.reverse_cons
      have hrest := ih hmore
      rw [htext, List.append_assoc, List.singleton_append, byteSize_append] at hrest
      exact hrest
    · change (m.header _ _).map some = _
      rw [hheader]
      rfl
    · rfl

/-- Cutting a header out never gives a fault, and gives the header that is read. -/
theorem splitHeader_eq (text : List Char) :
    splitHeader text = .ok (Reading.start.line text).header? :=
  headerFrom_eq .start text

/-- The text of the lines, with one more. -/
def joinedOn (start index : Nat) (text line : List Char) : List Char :=
  (if start < index then text ++ ['\n'] else text) ++ line

theorem headerOver_cons (start index : Nat) (text line : List Char) (rest : List (List Char)) :
    headerOver start text index (line :: rest) =
      match (Reading.start.line (joinedOn start index text line)).header? with
      | some header => .ok (some (header, index))
      | none => headerOver start (joinedOn start index text line) (index + 1) rest := by
  rw [headerOver, ← joinedOn, splitHeader_eq]
  cases (Reading.start.line (joinedOn start index text line)).header? <;> rfl

/-- A text that leaves a header without an end does so with more behind it. -/
theorem headerOver_of_broken {start index : Nat} {text : List Char}
    (h : Reading.start.line text = .broken) (rest : List (List Char)) :
    headerOver start text index rest = .ok none := by
  induction rest generalizing index text with
  | nil => rfl
  | cons line rest ih =>
    have hbroken : Reading.start.line (joinedOn start index text line) = .broken := by
      unfold joinedOn
      split
      · rw [List.append_assoc, Reading.line_append, h]
      · rw [Reading.line_append, h]
    rw [headerOver_cons, hbroken]
    exact ih hbroken

/-- A header never ends between two lines. -/
theorem Reading.exists_next_newline (r : Reading) : ∃ r', r.next '\n' = .more r' := by
  unfold Reading.next
  cases r.quote <;> exact ⟨_, rfl⟩

/-- From a line on, the header is read on that begins above it. -/
theorem headerOver_eq {start index fuel : Nat} (hindex : start ≤ index) {text : List Char}
    {r : Reading} (rest : List (List Char))
    (h : ∀ line, Reading.start.line (joinedOn start index text line) = r.line line) :
    headerOver start text index (rest.take fuel) =
      .ok ((readOn r fuel rest).map fun (header, size) => (header, index + (size - 1))) := by
  induction rest generalizing index fuel text r with
  | nil => cases fuel <;> rfl
  | cons line rest ih =>
    cases fuel with
    | zero => rfl
    | succ fuel =>
      rw [List.take_succ_cons, headerOver_cons, h line, readOn]
      cases hline : r.line line with
      | done header => rfl
      | broken =>
        rw [← h line] at hline
        exact headerOver_of_broken hline _
      | more r₁ =>
        obtain ⟨r₂, hnext⟩ := r₁.exists_next_newline
        have hbelow : ∀ below, Reading.start.line
            (joinedOn start (index + 1) (joinedOn start index text line) below) = r₂.line below := by
          intro below
          rw [joinedOn, if_pos (Nat.lt_succ_of_le hindex), List.append_assoc,
            Reading.line_append_of_more ((h line).trans hline), List.singleton_append, Reading.line,
            hnext]
        dsimp only [Step.header?]
        rw [ih (Nat.le_succ_of_le hindex) hbelow, hnext]
        dsimp only
        cases hread : readOn r₂ fuel rest with
        | none => rfl
        | some found =>
          obtain ⟨header, size⟩ := found
          have hpos := (readOn_size hread).1
          have hsame : index + 1 + (size - 1) = index + (size + 1 - 1) := by omega
          rw [Option.map_some, hsame]
          rfl

/-- The header that begins on a line is found without a fault, over the lines that it is read
over. -/
theorem headerAt_eq (lines : List (List Char)) (start : Nat) :
    headerAt lines start = .ok ((readHeader (lines.drop start)).map fun (header, size) =>
      (header, start + (size - 1))) := by
  have hlines : (lines.take (min (start + maxHeaderLines) lines.length)).drop start =
      (lines.drop start).take maxHeaderLines := by
    rw [List.drop_take, List.take_eq_take_iff, List.length_drop]
    omega
  rw [headerAt, hlines]
  apply headerOver_eq (Nat.le_refl start)
  intro line
  rw [joinedOn, if_neg (Nat.lt_irrefl start), List.nil_append]

end CodeSurvey.Python
