-- Texts and lines that are read by offsets and indices. A slice of a text gives a fault unless its
-- ends are in order and stand between two characters of the text, and an index gives one unless it
-- is that of an item.
import CodeSurvey.Proofs.Text.Blank
import CodeSurvey.Proofs.Text.Nested
import Mathlib.Data.List.Basic

namespace CodeSurvey.Text

/-! ## Faults -/

/-- What keeps a reader by offsets from going on: a slice or an index that is not in the text, or
a turn that does not get further. -/
inductive Fault where
  | slice
  | index
  | stalled
deriving DecidableEq, Repr

/-! ## Slices -/

/-- The number of bytes of a text. -/
def byteSize : List Char → Nat
  | [] => 0
  | c :: s => c.utf8Size + byteSize s

@[simp]
theorem byteSize_nil : byteSize [] = 0 := rfl

@[simp]
theorem byteSize_cons (c : Char) (s : List Char) : byteSize (c :: s) = c.utf8Size + byteSize s :=
  rfl

@[simp]
theorem byteSize_append (s t : List Char) : byteSize (s ++ t) = byteSize s + byteSize t := by
  induction s with
  | nil => simp
  | cons c s ih => simp [ih, Nat.add_assoc]

/-- The text cut at a byte offset; none when the text is shorter or the offset falls into a
character. -/
def cutAtByte? (n : Nat) : List Char → Option (List Char × List Char)
  | [] => if n = 0 then some ([], []) else none
  | c :: s =>
    if n = 0 then some ([], c :: s)
    else if c.utf8Size ≤ n then (cutAtByte? (n - c.utf8Size) s).map (fun (a, b) => (c :: a, b))
    else none

theorem cutAtByte?_append (a b : List Char) : cutAtByte? (byteSize a) (a ++ b) = some (a, b) := by
  induction a with
  | nil => cases b <;> rfl
  | cons c a ih =>
    have hpos := c.utf8Size_pos
    rw [List.cons_append, byteSize_cons, cutAtByte?, if_neg (by omega), if_pos (by omega),
      Nat.add_sub_cancel_left, ih]
    rfl

theorem cutAtByte?_eq_some_iff {n : Nat} {s a b : List Char} :
    cutAtByte? n s = some (a, b) ↔ s = a ++ b ∧ byteSize a = n := by
  constructor
  · intro h
    fun_induction cutAtByte? n s generalizing a with
    | case1 =>
      obtain ⟨rfl, rfl⟩ := Prod.mk.inj (Option.some.inj h)
      exact ⟨rfl, rfl⟩
    | case2 => cases h
    | case3 =>
      obtain ⟨rfl, rfl⟩ := Prod.mk.inj (Option.some.inj h)
      exact ⟨rfl, rfl⟩
    | case4 n c s hn hle ih =>
      obtain ⟨⟨a, rest⟩, hcut, heq⟩ := Option.map_eq_some_iff.1 h
      obtain ⟨rfl, rfl⟩ := Prod.mk.inj heq
      obtain ⟨rfl, ha⟩ := ih hcut
      exact ⟨rfl, by rw [byteSize_cons]; omega⟩
    | case5 => cases h
  · rintro ⟨rfl, rfl⟩
    exact cutAtByte?_append a b

/-- The part of a text between two byte offsets. -/
def slice (s : List Char) (start stop : Nat) : Except Fault (List Char) :=
  match cutAtByte? stop s with
  | none => .error .slice
  | some (front, _) =>
    match cutAtByte? start front with
    | none => .error .slice
    | some (_, part) => .ok part

/-- A slice is taken when both ends stand between characters of the text, and in order. -/
theorem slice_eq_ok_iff {s part : List Char} {start stop : Nat} :
    slice s start stop = .ok part ↔ ∃ front back, s = front ++ part ++ back ∧
      byteSize front = start ∧ byteSize front + byteSize part = stop := by
  unfold slice
  constructor
  · intro h
    split at h
    · cases h
    · rename_i whole back hstop
      split at h
      · cases h
      · rename_i front part' hstart
        obtain rfl := Except.ok.inj h
        obtain ⟨rfl, rfl⟩ := cutAtByte?_eq_some_iff.1 hstop
        obtain ⟨rfl, rfl⟩ := cutAtByte?_eq_some_iff.1 hstart
        exact ⟨front, back, rfl, rfl, (byteSize_append _ _).symm⟩
  · rintro ⟨front, back, rfl, rfl, rfl⟩
    rw [← byteSize_append, cutAtByte?_append]
    dsimp only
    rw [cutAtByte?_append]

/-- The second letter takes two bytes, and no offset falls between them. -/
example : slice ['a', 'é', 'b'] 1 3 = .ok ['é'] ∧ slice ['a', 'é', 'b'] 1 2 = .error .slice := by
  decide

theorem slice_append (front part back : List Char) :
    slice (front ++ part ++ back) (byteSize front) (byteSize (front ++ part)) = .ok part :=
  slice_eq_ok_iff.2 ⟨front, back, rfl, rfl, (byteSize_append _ _).symm⟩

theorem slice_front (front back : List Char) :
    slice (front ++ back) 0 (byteSize front) = .ok front :=
  slice_append [] front back

theorem slice_back (front back : List Char) :
    slice (front ++ back) (byteSize front) (byteSize (front ++ back)) = .ok back := by
  have := slice_append front back []
  rwa [List.append_nil] at this

/-! ## Items -/

variable {α : Type}

/-- The item at an index. -/
def itemAt (items : List α) (i : Nat) : Except Fault α :=
  match items[i]? with
  | some item => .ok item
  | none => .error .index

theorem itemAt_of_drop {items rest : List α} {item : α} {i : Nat} (h : items.drop i = item :: rest) :
    itemAt items i = .ok item := by
  have hitem : items[i]? = some item := by rw [← List.head?_drop, h]; rfl
  rw [itemAt, hitem]

theorem drop_succ_of_drop {items rest : List α} {item : α} {i : Nat}
    (h : items.drop i = item :: rest) : items.drop (i + 1) = rest := by
  rw [← List.drop_drop, h]
  rfl

/-- The items from one index to another, which is not taken. -/
def itemsBetween (items : List α) (start stop : Nat) : Except Fault (List α) :=
  if start ≤ stop ∧ stop ≤ items.length then .ok ((items.take stop).drop start)
  else .error .index

/-- An item and some of those behind it. -/
theorem itemsBetween_of_drop {items rest : List α} {item : α} {i more : Nat}
    (h : items.drop i = item :: rest) (hmore : more ≤ rest.length) :
    itemsBetween items i (i + 1 + more) = .ok (item :: rest.take more) := by
  have hlength := congrArg List.length h
  rw [List.length_drop, List.length_cons] at hlength
  rw [itemsBetween, if_pos (by omega), List.drop_take, h, Nat.add_assoc, Nat.add_sub_cancel_left,
    Nat.add_comm 1, List.take_succ_cons]

/-! ## Marks -/

/-- The offset of the first place where the mark stands, in what follows `offset` bytes. -/
def findFrom? (mark : List Char) (offset : Nat) : List Char → Option Nat
  | [] => if (dropFront? mark []).isSome then some offset else none
  | c :: s =>
    if (dropFront? mark (c :: s)).isSome then some offset
    else findFrom? mark (offset + c.utf8Size) s

def find? (mark s : List Char) : Option Nat := findFrom? mark 0 s

theorem findFrom?_eq (mark : List Char) (offset : Nat) (s : List Char) :
    findFrom? mark offset s = (cutAt? mark s).map fun cut => offset + byteSize cut.1 := by
  induction s generalizing offset with
  | nil =>
    unfold findFrom? cutAt? dropFront?
    cases mark.isPrefixOf? [] <;> rfl
  | cons c s ih =>
    unfold findFrom? cutAt? dropFront?
    cases mark.isPrefixOf? (c :: s) with
    | some rest => rfl
    | none =>
      rw [Option.isSome_none, if_neg Bool.false_ne_true, ih, Option.map_map]
      congr 1
      funext cut
      exact Nat.add_assoc _ _ _

theorem find?_eq (mark s : List Char) :
    find? mark s = (cutAt? mark s).map fun cut => byteSize cut.1 := by
  rw [find?, findFrom?_eq]
  simp only [Nat.zero_add]

/-- What stands before a mark is the slice up to where it is found. -/
theorem slice_of_cutAt? {mark s a b : List Char} (h : cutAt? mark s = some (a, b)) :
    slice s 0 (byteSize a) = .ok a := by
  have hs : ∃ back, s = a ++ back := by
    fun_induction cutAt? mark s generalizing a b with
    | case1 =>
      obtain ⟨rest, -, heq⟩ := Option.map_eq_some_iff.1 h
      obtain ⟨rfl, rfl⟩ := Prod.mk.inj heq
      exact ⟨[], rfl⟩
    | case2 c r rest =>
      obtain ⟨rfl, rfl⟩ := Prod.mk.inj (Option.some.inj h)
      exact ⟨_, rfl⟩
    | case3 c r hnone ih =>
      obtain ⟨⟨a, b⟩, hcut, heq⟩ := Option.map_eq_some_iff.1 h
      obtain ⟨rfl, rfl⟩ := Prod.mk.inj heq
      obtain ⟨back, rfl⟩ := ih hcut
      exact ⟨back, rfl⟩
  obtain ⟨back, rfl⟩ := hs
  exact slice_front a back

/-! ## Cutting at separators -/

/-- The parts of `input` between separators that stand outside of quotes and brackets, read on at the
byte `offset` from which on `rest` is left. The part that is open began at `start`. -/
def cutFrom (input : List Char) (sep : Char) (n : Nesting) (start offset : Nat) :
    List Char → Except Fault (List (List Char))
  | [] => (slice input start (byteSize input)).map ([·])
  | c :: rest =>
    let next := offset + c.utf8Size
    if n.cutsAt sep c then do
      let part ← slice input start offset
      let parts ← cutFrom input sep (n.next c) next next rest
      return part :: parts
    else cutFrom input sep (n.next c) start next rest

def cutOutside (sep : Char) (input : List Char) : Except Fault (List (List Char)) :=
  cutFrom input sep .outside 0 0 input

theorem cutFrom_eq (sep : Char) (n : Nesting) (front part rest : List Char) :
    cutFrom (front ++ part ++ rest) sep n (byteSize front) (byteSize (front ++ part)) rest =
      .ok ((part ++ (partsFrom sep n rest).1) :: (partsFrom sep n rest).2) := by
  induction rest generalizing n front part with
  | nil =>
    rw [cutFrom, List.append_nil, slice_back]
    simp [Except.map, partsFrom]
  | cons c rest ih =>
    have hnext : byteSize (front ++ part) + c.utf8Size = byteSize (front ++ part ++ [c]) := by
      simp [Nat.add_assoc]
    cases hcut : n.cutsAt sep c with
    | true =>
      have hinput : front ++ part ++ c :: rest = front ++ part ++ [c] ++ [] ++ rest := by simp
      have hrest := ih (n.next c) (front ++ part ++ [c]) []
      rw [← hinput, List.append_nil] at hrest
      rw [cutFrom, hcut, if_pos rfl, slice_append, hnext, partsFrom_cons_cut hcut]
      change (do let parts ← cutFrom _ sep (n.next c) _ _ rest; return part :: parts) = _
      rw [hrest, List.append_nil]
      rfl
    | false =>
      have hinput : front ++ part ++ c :: rest = front ++ (part ++ [c]) ++ rest := by simp
      have hrest := ih (n.next c) front (part ++ [c])
      rw [← hinput, ← List.append_assoc] at hrest
      rw [cutFrom, hcut, if_neg Bool.false_ne_true, hnext, hrest, partsFrom_cons_keep hcut]
      simp

/-- Cutting by offsets never gives a fault, and gives the parts. -/
theorem cutOutside_eq (sep : Char) (input : List Char) :
    cutOutside sep input = .ok (splitOutside sep input) :=
  cutFrom_eq sep .outside [] [] input

/-! ## Turns -/

section Turns

variable {β σ : Type} (turn : Nat → σ → Except Fault (β × Nat × σ)) {count index next : Nat}
  {state state' : σ}

/-- What a pass over `count` items finds from an index on. Each turn says what it finds and at which
index the next one is; one that does not get further is a fault. -/
def turns (count index : Nat) (state : σ) : Except Fault (List β) :=
  if index < count then
    match turn index state with
    | .error fault => .error fault
    | .ok (found, next, state) =>
      if index < next then (turns count next state).map (found :: ·) else .error .stalled
  else .ok []
termination_by count - index

theorem turns_of_le (h : count ≤ index) (state : σ) : turns turn count index state = .ok [] := by
  unfold turns
  rw [if_neg (Nat.not_lt.2 h)]

theorem turns_of_turn {found : β} (h : index < count)
    (hturn : turn index state = .ok (found, next, state')) (hnext : index < next) :
    turns turn count index state = (turns turn count next state').map (found :: ·) := by
  rw [turns, if_pos h, hturn]
  dsimp only
  rw [if_pos hnext]

end Turns

end CodeSurvey.Text
