-- The import declarations in front of a Go file as they are written, single ones and blocks, with a
-- comment on any of their lines, and the kind that each of these lines has for the survey.
import CodeSurvey.Proofs.Go.Extent

namespace CodeSurvey.Go

open Text

/-! ## Written imports -/

/-- What ends a line: blanks, and perhaps the text of a comment. -/
structure Tail where
  gap : List Char
  comment : Option (List Char)
  blank_gap : allBlank gap = true

def Tail.write (t : Tail) : List Char :=
  t.gap ++ (t.comment.map fun text => '/' :: '/' :: text).getD []

/-- One import: perhaps a new name, with the blanks behind it, and the path between marks. A path
has no backslash and no mark in it. -/
structure Spec where
  newName : Option (List Char × List Char)
  quoting : Quoting
  path : List Char
  isName : ∀ n ∈ newName, n.1 = ['.'] ∨ IsIdentifier n.1
  blank_gap : ∀ n ∈ newName, allBlank n.2 = true
  quoted : quoting ≠ .rune
  ne_nil : path ≠ []
  plain : '\\' ∉ path ∧ quoting.mark ∉ path

namespace Spec

variable (s : Spec)

/-- What stands in front of the path. -/
def front : List Char := (s.newName.map fun n => n.1 ++ n.2).getD []

def write : List Char := s.front ++ s.quoting.mark :: (s.path ++ [s.quoting.mark])

/-- The path is no raw text, and the new name is an ASCII name, or the dot, with a blank behind. -/
def IsPlain : Prop :=
  s.quoting = .text ∧
    ∀ n ∈ s.newName, n.2 ≠ [] ∧ (n.1 = ['.'] ∨ ∀ c ∈ n.1, isAsciiWord c = true)

instance : Decidable s.IsPlain :=
  have (n : List Char) : Decidable (∀ c ∈ n, isAsciiWord c = true) := List.decidableBAll _ _
  have : Decidable (∀ n ∈ s.newName, n.2 ≠ [] ∧ (n.1 = ['.'] ∨ ∀ c ∈ n.1, isAsciiWord c = true)) :=
    Option.decidableForallMem _
  inferInstanceAs (Decidable (_ ∧ _))

/-- The import at a line with `before` others above it. The dot takes all names in, the underscore
takes none, and another name stands for the package. -/
def importAt (before : Nat) : Import :=
  let name := s.newName.map (·.1)
  { Import.plain (String.ofList s.path) (lineNumber before) with
    defaultImport := if name = some ['.'] ∨ name = some ['_'] then none else name.map String.ofList
    namespaceName := if name = some ['.'] then some "." else none }

end Spec

/-- An import of one package. Only a dot or a path may stand right behind the keyword. -/
structure Single where
  front : List Char
  gap : List Char
  spec : Spec
  tail : Tail
  blank_front : allBlank front = true
  blank_gap : allBlank gap = true
  apart : gap = [] → ∀ n ∈ spec.newName, n.1 = ['.']

/-- A line in a block of imports: a spec, or none. -/
structure Inner where
  front : List Char
  spec : Option Spec
  tail : Tail
  blank_front : allBlank front = true

/-- A block of imports from the line of the keyword to that of the closing parenthesis. -/
structure Block where
  front : List Char
  gap : List Char
  opening : Tail
  inner : List Inner
  back : List Char
  closing : Tail
  blank_front : allBlank front = true
  blank_gap : allBlank gap = true
  blank_back : allBlank back = true

def importWord : List Char := ['i', 'm', 'p', 'o', 'r', 't']

def Single.write (s : Single) : List Char :=
  s.front ++ (importWord ++ (s.gap ++ (s.spec.write ++ s.tail.write)))

def Inner.write (i : Inner) : List Char :=
  i.front ++ ((i.spec.map Spec.write).getD [] ++ i.tail.write)

def Block.first (b : Block) : List Char :=
  b.front ++ (importWord ++ (b.gap ++ '(' :: b.opening.write))

def Block.last (b : Block) : List Char := b.back ++ ')' :: b.closing.write

/-- What a file begins with: imports, and the lines between them. -/
inductive Clause where
  | between (line : List Char) (h : isBetween line = true)
  | single (s : Single)
  | block (b : Block)

namespace Clause

def lines : Clause → List (List Char)
  | .between line _ => [line]
  | .single s => [s.write]
  | .block b => b.first :: (b.inner.map Inner.write ++ [b.last])

/-- The lines with those of an import blanked out. -/
def blanked : Clause → List (List Char)
  | .between line _ => [line]
  | .single s => (single s).lines.map fun _ => []
  | .block b => (block b).lines.map fun _ => []

end Clause

/-! ## What is told -/

/-- The spec is read when it is plain and there is a blank behind the keyword. -/
def Single.imports (before : Nat) (s : Single) : List Import :=
  if s.gap ≠ [] ∧ s.spec.IsPlain then [s.spec.importAt before] else []

/-- The plain specs of a block, each at its line. -/
def innerImports (before : Nat) : List Inner → List Import
  | [] => []
  | i :: inner => (i.spec.toList.filter (·.IsPlain)).map (·.importAt before) ++
      innerImports (before + 1) inner

def Clause.imports (before : Nat) : Clause → List Import
  | .between _ _ => []
  | .single s => s.imports before
  | .block b => innerImports (before + 1) b.inner

/-- The imports of clauses that stand below `before` lines. -/
def clauseImports (before : Nat) : List Clause → List Import
  | [] => []
  | c :: clauses => c.imports before ++ clauseImports (before + c.lines.length) clauses

/-- A block of imports is taken for open behind the clause: there is a comment behind its
parenthesis. -/
def Clause.leavesOpen (wasOpen : Bool) : Clause → Bool
  | .block b => b.closing.comment.isSome
  | _ => wasOpen

/-- A block of imports is taken for open behind the clauses. -/
def leaveOpen (clauses : List Clause) : Bool := clauses.foldl Clause.leavesOpen false

/-! ## Reading a spec -/

namespace Quoting

variable {q : Quoting}

theorem plain_mark (hq : q ≠ .rune) : isBlank q.mark = false ∧ isAsciiWord q.mark = false ∧
    isNameStart q.mark = false ∧ q.mark ≠ '.' ∧ q.mark ≠ '(' ∧ q.mark ≠ ')' ∧ q.mark ∉ importWord := by
  cases q with
  | rune => exact absurd rfl hq
  | text => decide
  | raw => decide

end Quoting

theorem takeAlias?_eq {s : List Char} (h : s.head? ≠ some '.') : takeAlias? s = takeName? s := by
  cases s with
  | nil => rfl
  | cons c r =>
    have hc : c ≠ '.' := fun heq => h (heq ▸ rfl)
    unfold takeAlias? takeName?
    simp [hc]

theorem takeAlias?_eq_none {s : List Char} (h : ∀ c ∈ s.head?, isNameStart c = false ∧ c ≠ '.') :
    takeAlias? s = none := by
  cases s with
  | nil => rfl
  | cons c r =>
    obtain ⟨hstart, hdot⟩ := h c rfl
    rw [takeAlias?, if_neg (by simp [hstart, hdot])]

theorem quotedPath?_eq_none {s : List Char} (h : s.head? ≠ some '"') : quotedPath? s = none := by
  unfold quotedPath?
  split
  · exact absurd rfl h
  · rfl

namespace Spec

variable (s : Spec) (rest : List Char)

theorem quotedPath?_write :
    quotedPath? (s.quoting.mark :: (s.path ++ s.quoting.mark :: rest)) =
      if s.quoting = .text then some s.path else none := by
  have hquoted := s.quoted
  have hplain := s.plain.2
  cases hq : s.quoting with
  | rune => exact absurd hq hquoted
  | raw => exact quotedPath?_eq_none fun heq => absurd (Option.some.inj heq) (by decide)
  | text =>
    rw [hq] at hplain
    have hpath : ∀ c ∈ s.path, decide (c ≠ '"') = true := by
      intro c hc
      have : c ≠ '"' := by
        rintro rfl
        exact hplain hc
      simpa using this
    have htake : (s.path ++ '"' :: rest).takeWhile (fun c => decide (c ≠ '"')) = s.path :=
      takeWhile_append_eq_left hpath (by rintro c ⟨⟩; rfl)
    rw [if_pos rfl]
    change quotedPath? ('"' :: (s.path ++ '"' :: rest)) = some s.path
    rw [quotedPath?, htake]
    simp [s.ne_nil]

end Spec

/-- The new name is taken off with what stands behind it. -/
theorem takeAlias?_name {name after : List Char} (hname : name = ['.'] ∨ IsIdentifier name)
    (hascii : name = ['.'] ∨ ∀ c ∈ name, isAsciiWord c = true)
    (hafter : ∀ c ∈ after.head?, isAsciiWord c = false) :
    takeAlias? (name ++ after) = some (name, after) := by
  by_cases hdot : name = ['.']
  · have hnone : after.takeWhile isAsciiWord = [] :=
      takeWhile_append_eq_left (List.forall_mem_nil _) hafter
    rw [hdot, List.singleton_append, takeAlias?, if_pos (by simp), hnone, dropWhile_eq_self hafter]
  · have hname := hname.resolve_left hdot
    obtain ⟨c, hc, hdigit⟩ := hname.1
    have hword := hascii.resolve_left hdot
    have hstart := isNameStart_of_isAsciiWord (hword c (List.mem_of_mem_head? hc)) hdigit
    have hhead : (name ++ after).head? ≠ some '.' := by
      rw [List.head?_append_of_ne_nil _ hname.ne_nil]
      exact hname.head?_ne (by decide +kernel)
    rw [takeAlias?_eq hhead, takeName?_append ⟨c, hc, hstart⟩ hword hafter]

/-- A name with a character beyond ASCII is no alias. -/
theorem importSpec?_of_not_ascii {name after : List Char} (hname : IsIdentifier name)
    (hascii : ¬∀ c ∈ name, isAsciiWord c = true) : importSpec? (name ++ after) = none := by
  have hne : ∀ {c : Char}, isWordChar c = false → (name ++ after).head? ≠ some c := by
    intro c hc
    rw [List.head?_append_of_ne_nil _ hname.ne_nil]
    exact hname.head?_ne hc
  unfold importSpec?
  rw [takeAlias?_eq (hne (by decide +kernel))]
  have hread : takeName? (name ++ after) = none ∨
      ∃ read c r, takeName? (name ++ after) = some (read, c :: r) ∧ isWordChar c = true :=
    takeName?_of_wide hname hascii
  rcases hread with hnone | ⟨read, c, r, hread, hc⟩
  · rw [hnone]
    dsimp only
    rw [quotedPath?_eq_none (hne (by decide +kernel)), Option.map_none]
  · rw [hread]
    dsimp only
    rw [(Heading.trimStart_cons_of_isWordChar hc r).1, if_pos (by simp)]

/-- Of a new name nothing is read without a blank behind it. -/
theorem importSpec?_name {name gap quoted : List Char} (hname : name = ['.'] ∨ IsIdentifier name)
    (hascii : name = ['.'] ∨ ∀ c ∈ name, isAsciiWord c = true) (hgap : allBlank gap = true)
    (hquoted : ∀ c ∈ quoted.head?, isBlank c = false ∧ isAsciiWord c = false) :
    importSpec? (name ++ (gap ++ quoted)) =
      if gap = [] then none else (quotedPath? quoted).map (some name, ·) := by
  have hafter := head?_append_of_allBlank hgap fun c hc => (hquoted c hc).2
  have htrim : trimStart (gap ++ quoted) = quoted :=
    trimStart_append hgap fun c hc => (hquoted c hc).1
  rw [importSpec?, takeAlias?_name hname hascii hafter]
  dsimp only
  rw [htrim]
  by_cases hnil : gap = []
  · rw [if_pos hnil, if_pos (by simp [hnil])]
  · have hlength : quoted ≠ gap ++ quoted := by
      intro heq
      have := congrArg List.length heq
      rw [List.length_append] at this
      have := List.length_pos_iff.2 hnil
      omega
    rw [if_neg hnil, if_neg (by simpa using hlength)]

/-- A spec is read, whatever follows it, when it is plain. -/
theorem Spec.importSpec?_write (s : Spec) (rest : List Char) :
    importSpec? (s.write ++ rest) = if s.IsPlain then some (s.newName.map (·.1), s.path) else none := by
  obtain ⟨hblank, hword, hstart, hdot, -⟩ := Quoting.plain_mark s.quoted
  have hwrite : s.write ++ rest = s.front ++ s.quoting.mark :: (s.path ++ s.quoting.mark :: rest) := by
    simp [write]
  have hpath := s.quotedPath?_write rest
  rw [hwrite, front]
  cases hname : s.newName with
  | none =>
    have hplain : s.IsPlain ↔ s.quoting = .text := by simp [IsPlain, hname]
    rw [Option.map_none, Option.getD_none, List.nil_append, importSpec?,
      takeAlias?_eq_none (by rintro c ⟨⟩; exact ⟨hstart, hdot⟩), hpath]
    dsimp only
    by_cases htext : s.quoting = .text
    · rw [if_pos htext, if_pos (hplain.2 htext)]
      rfl
    · rw [if_neg htext, if_neg fun h => htext (hplain.1 h)]
      rfl
  | some n =>
    have hplain : s.IsPlain ↔
        s.quoting = .text ∧ n.2 ≠ [] ∧ (n.1 = ['.'] ∨ ∀ c ∈ n.1, isAsciiWord c = true) := by
      simp [IsPlain, hname]
    rw [Option.map_some, Option.getD_some, List.append_assoc]
    by_cases hascii : n.1 = ['.'] ∨ ∀ c ∈ n.1, isAsciiWord c = true
    · rw [importSpec?_name (s.isName n hname) hascii (s.blank_gap n hname)
        (by rintro c ⟨⟩; exact ⟨hblank, hword⟩), hpath]
      by_cases hgap : n.2 = []
      · rw [if_pos hgap, if_neg fun h => (hplain.1 h).2.1 hgap]
      · by_cases htext : s.quoting = .text
        · rw [if_neg hgap, if_pos htext, if_pos (hplain.2 ⟨htext, hgap, hascii⟩)]
          rfl
        · rw [if_neg hgap, if_neg htext, if_neg fun h => htext (hplain.1 h).1]
          rfl
    · obtain ⟨hdot', hword'⟩ := not_or.1 hascii
      rw [importSpec?_of_not_ascii ((s.isName n hname).resolve_left hdot') hword',
        if_neg fun h => hascii (hplain.1 h).2.2]

/-! ## Reading a line -/

/-- In front of the opening parenthesis of a block stand the keyword and blanks alone. -/
theorem opensImports_eq_false {line front rest : List Char} {c : Char}
    (hline : trimStart line = front ++ c :: rest) (hfront : '(' ∉ front)
    (hc : isBlank c = false ∧ c ≠ '(' ∧ c ∉ importWord) : opensImports line = false := by
  unfold opensImports
  split
  · rename_i after hafter
    have htrim := dropFront?_eq_some_iff.1 hafter
    obtain ⟨gap, hgap, hrest⟩ : ∃ gap, allBlank gap = true ∧ after = gap ++ trimStart after :=
      ⟨after.takeWhile isBlank, List.all_takeWhile, List.takeWhile_append_dropWhile.symm⟩
    rw [hline, hrest] at htrim
    refine decide_eq_false fun hhead => ?_
    obtain ⟨r, hr⟩ := List.head?_eq_some_iff.1 hhead
    rw [hr, ← List.append_assoc] at htrim
    -- The two ways to cut the line disagree on which of the two characters comes first.
    rcases List.append_eq_append_iff.1 htrim with ⟨as, has, hcons⟩ | ⟨as, has, hcons⟩
    · cases as with
      | nil => exact hc.2.1 (List.cons.inj hcons).1
      | cons d as =>
        obtain rfl : c = d := (List.cons.inj hcons).1
        have hmem : c ∈ importWord ++ gap := has ▸ List.mem_append_right _ List.mem_cons_self
        rcases List.mem_append.1 hmem with hmem | hmem
        · exact hc.2.2 hmem
        · rw [allBlank_iff.1 hgap c hmem] at hc
          cases hc.1
    · cases as with
      | nil => exact hc.2.1 (List.cons.inj hcons).1.symm
      | cons d as =>
        obtain rfl : '(' = d := (List.cons.inj hcons).1
        exact hfront (has ▸ List.mem_append_right _ List.mem_cons_self)
  · rfl

theorem opensImports_of_head? {line : List Char} (h : (trimStart line).head? ≠ some 'i') :
    opensImports line = false := by
  rw [opensImports, dropFront?_of_head?_ne h]

theorem closesImports_eq_false {line : List Char} {c : Char} (hmem : c ∈ line)
    (hblank : isBlank c = false) (hc : c ≠ ')') : closesImports line = false := by
  refine decide_eq_false fun htrim => ?_
  obtain ⟨front, back, hfront, hback, hline⟩ := exists_trim line
  rw [hline, htrim] at hmem
  rcases List.mem_append.1 hmem with hmem | hmem
  · rcases List.mem_append.1 hmem with hmem | hmem
    · rw [allBlank_iff.1 hfront c hmem] at hblank
      cases hblank
    · exact hc (List.mem_singleton.1 hmem)
  · rw [allBlank_iff.1 hback c hmem] at hblank
    cases hblank

theorem closesImports_of_isBetween {line : List Char} (h : isBetween line = true) :
    closesImports line = false := by
  have hsub : ∀ {c : Char}, c ∈ trimStart line → c ∈ line :=
    fun hc => (List.dropWhile_sublist _).subset hc
  unfold isBetween at h
  split at h
  · rename_i hnil
    have hblank : allBlank line = true := by
      rw [← allBlank_trimStart, hnil]
      rfl
    rw [closesImports, trim_of_allBlank hblank]
    rfl
  · rename_i hslashes
    exact closesImports_eq_false (hsub (hslashes ▸ List.mem_cons_self)) rfl (by decide)
  · obtain ⟨rest, hrest⟩ := Option.isSome_iff_exists.1 h
    obtain ⟨d, r, heq, -⟩ := afterKeyword?_eq_some_iff.1 hrest
    exact closesImports_eq_false (c := 'p') (hsub (heq ▸ List.mem_cons_self)) rfl (by decide)

namespace Tail

variable (t : Tail)

/-- Blanks alone, or a slash behind them. -/
theorem trimStart_write : trimStart t.write = (t.comment.map fun text => '/' :: '/' :: text).getD [] := by
  refine trimStart_append t.blank_gap ?_
  cases t.comment with
  | none => rintro c ⟨⟩
  | some text =>
    rintro c ⟨⟩
    rfl

end Tail

namespace Spec

variable (s : Spec)

/-- In front of the path stands no parenthesis. -/
theorem paren_not_mem_front : '(' ∉ s.front := by
  intro hmem
  rw [front] at hmem
  cases hname : s.newName with
  | none =>
    rw [hname] at hmem
    cases hmem
  | some n =>
    rw [hname, Option.map_some, Option.getD_some] at hmem
    rcases List.mem_append.1 hmem with hmem | hmem
    · rcases s.isName n hname with hdot | hident
      · rw [hdot] at hmem
        simp at hmem
      · exact hident.not_mem (by decide +kernel) hmem
    · exact absurd (allBlank_iff.1 (s.blank_gap n hname) _ hmem) (by decide)

/-- A spec begins with a new name or with the mark of its path. -/
theorem head?_write (rest : List Char) : ∀ c ∈ (s.write ++ rest).head?, isBlank c = false := by
  obtain ⟨hblank, -⟩ := Quoting.plain_mark s.quoted
  intro c hc
  unfold write front at hc
  cases hname : s.newName with
  | none =>
    rw [hname] at hc
    obtain rfl := Option.some.inj hc
    exact hblank
  | some n =>
    rw [hname, Option.map_some, Option.getD_some] at hc
    simp only [List.append_assoc] at hc
    rcases s.isName n hname with hdot | hident
    · rw [hdot] at hc
      obtain rfl := Option.some.inj hc
      rfl
    · exact hident.head?_not_blank _ c hc

theorem mark_mem_write : s.quoting.mark ∈ s.write :=
  List.mem_append_right _ List.mem_cons_self

end Spec

/-! ## Kinds of lines -/

theorem Single.lineKind_write (s : Single) : lineKind false s.write =
    if s.gap ≠ [] ∧ s.spec.IsPlain then .spec (s.spec.newName.map (·.1), s.spec.path) else .other := by
  obtain ⟨hblank, -, -, -, hparen, -, hkeyword⟩ := Quoting.plain_mark s.spec.quoted
  have htrim : trimStart s.write = importWord ++ (s.gap ++ (s.spec.write ++ s.tail.write)) :=
    trimStart_append s.blank_front (by rintro c ⟨⟩; rfl)
  have hopens : opensImports s.write = false := by
    have hcut : trimStart s.write = (importWord ++ (s.gap ++ s.spec.front)) ++
        s.spec.quoting.mark :: (s.spec.path ++ s.spec.quoting.mark :: s.tail.write) := by
      rw [htrim, Spec.write]
      simp
    refine opensImports_eq_false hcut ?_ ⟨hblank, hparen, hkeyword⟩
    intro hmem
    rcases List.mem_append.1 hmem with hmem | hmem
    · exact absurd hmem (by decide)
    · rcases List.mem_append.1 hmem with hmem | hmem
      · exact absurd (allBlank_iff.1 s.blank_gap _ hmem) (by decide)
      · exact s.spec.paren_not_mem_front hmem
  have himport : import? s.write = if s.gap ≠ [] ∧ s.spec.IsPlain then
      some (s.spec.newName.map (·.1), s.spec.path) else none := by
    have hhead := s.spec.head?_write s.tail.write
    unfold import?
    rw [htrim]
    by_cases hgap : s.gap = []
    · rw [hgap, List.nil_append, if_neg (by simp)]
      change (afterKeyword? importWord _).bind importSpec? = none
      rw [afterKeyword?_of_not_blank hhead, Option.bind_none]
    · change (afterKeyword? importWord _).bind importSpec? = _
      rw [afterKeyword?_gap hgap s.blank_gap hhead, Option.bind_some, Spec.importSpec?_write]
      simp [hgap]
  have hhead : ∀ {c : Char}, isBlank c = false → c ≠ 'i' → s.write.head? ≠ some c := by
    intro c hc hne heq
    unfold write at heq
    cases hfront : s.front with
    | nil =>
      rw [hfront] at heq
      exact hne (Option.some.inj heq).symm
    | cons d front =>
      rw [hfront] at heq
      obtain rfl := Option.some.inj heq
      rw [allBlank_iff.1 s.blank_front d (hfront ▸ List.mem_cons_self)] at hc
      cases hc
  rw [lineKind, hopens, himport, type?_of_head?_ne (hhead rfl (by decide)),
    func?_of_head?_ne (hhead rfl (by decide))]
  by_cases hread : s.gap ≠ [] ∧ s.spec.IsPlain
  · rw [if_pos hread, if_pos hread]
    rfl
  · rw [if_neg hread, if_neg hread]
    rfl

theorem Single.closesImports_write (s : Single) : closesImports s.write = false := by
  have hmem : 'i' ∈ s.write := List.mem_append_right _ List.mem_cons_self
  exact closesImports_eq_false hmem rfl (by decide)

theorem Inner.closesImports_write (i : Inner) : closesImports i.write = false := by
  cases hspec : i.spec with
  | some s =>
    obtain ⟨hblank, -, -, -, -, hparen, -⟩ := Quoting.plain_mark s.quoted
    have hmem : s.quoting.mark ∈ i.write := by
      rw [write, hspec, Option.map_some, Option.getD_some]
      exact List.mem_append_right _ (List.mem_append_left _ s.mark_mem_write)
    exact closesImports_eq_false hmem hblank hparen
  | none =>
    rw [write, hspec, Option.map_none, Option.getD_none, List.nil_append]
    cases hcomment : i.tail.comment with
    | some text =>
      have hmem : '/' ∈ i.front ++ i.tail.write := by
        rw [Tail.write, hcomment]
        simp
      exact closesImports_eq_false hmem rfl (by decide)
    | none =>
      have hblank : allBlank (i.front ++ i.tail.write) = true := by
        rw [Tail.write, hcomment, Option.map_none, Option.getD_none, List.append_nil, allBlank,
          List.all_append]
        exact Bool.and_eq_true_iff.2 ⟨i.blank_front, i.tail.blank_gap⟩
      rw [closesImports, trim_of_allBlank hblank]
      rfl

/-- Without a spec nothing is left of the line, or a comment. -/
theorem Inner.trimStart_write_of_none {i : Inner} (h : i.spec = none) :
    ∀ c ∈ (trimStart i.write).head?, c = '/' := by
  have htrim : trimStart i.write = trimStart i.tail.write := by
    rw [write, h, Option.map_none, Option.getD_none, List.nil_append]
    unfold trimStart
    rw [List.dropWhile_append_of_pos (allBlank_iff.1 i.blank_front)]
  rw [htrim, Tail.trimStart_write]
  cases i.tail.comment with
  | none => rintro c ⟨⟩
  | some text =>
    rintro c ⟨⟩
    rfl

theorem Inner.lineKind_write (i : Inner) : lineKind true i.write =
    match i.spec with
    | some s => if s.IsPlain then .spec (s.newName.map (·.1), s.path) else .other
    | none => .other := by
  cases hspec : i.spec with
  | some s =>
    obtain ⟨hblank, -, -, -, hparen, -, hkeyword⟩ := Quoting.plain_mark s.quoted
    have htrim : trimStart i.write = s.write ++ i.tail.write := by
      rw [write, hspec, Option.map_some, Option.getD_some]
      exact trimStart_append i.blank_front (s.head?_write _)
    have hcut : trimStart i.write =
        s.front ++ s.quoting.mark :: (s.path ++ s.quoting.mark :: i.tail.write) := by
      rw [htrim, Spec.write]
      simp
    have hopens := opensImports_eq_false hcut s.paren_not_mem_front ⟨hblank, hparen, hkeyword⟩
    rw [lineKind, hopens, i.closesImports_write, blockImport?, htrim, s.importSpec?_write]
    by_cases hplain : s.IsPlain
    · simp [hplain]
    · simp [hplain]
  | none =>
    have hhead := Inner.trimStart_write_of_none hspec
    have hne : ∀ {c : Char}, c ≠ '/' → (trimStart i.write).head? ≠ some c :=
      fun hc heq => hc (hhead _ heq)
    have hspec : blockImport? i.write = none := by
      rw [blockImport?, importSpec?, quotedPath?_eq_none (hne (by decide)), takeAlias?_eq_none]
      · rfl
      · intro c hc
        rw [hhead c hc]
        decide
    rw [lineKind, opensImports_of_head? (hne (by decide)), i.closesImports_write, hspec]
    rfl

theorem Block.opensImports_first (b : Block) : opensImports b.first = true := by
  have htrim : trimStart b.first = importWord ++ (b.gap ++ '(' :: b.opening.write) :=
    trimStart_append b.blank_front (by rintro c ⟨⟩; rfl)
  have hkeyword : dropFront? ['i', 'm', 'p', 'o', 'r', 't'] (trimStart b.first) =
      some (b.gap ++ '(' :: b.opening.write) := dropFront?_eq_some_iff.2 htrim
  have hopen : trimStart (b.gap ++ '(' :: b.opening.write) = '(' :: b.opening.write :=
    trimStart_append b.blank_gap (by rintro c ⟨⟩; rfl)
  unfold opensImports
  rw [hkeyword]
  dsimp only
  rw [hopen]
  rfl

theorem Block.trimStart_last (b : Block) : trimStart b.last = ')' :: b.closing.write :=
  trimStart_append b.blank_back (by rintro c ⟨⟩; rfl)

/-- The line of the closing parenthesis closes the block when there is no comment on it. -/
theorem Block.lineKind_last (b : Block) : lineKind true b.last =
    if b.closing.comment.isSome then .other else .closesBlock := by
  have htrim := b.trimStart_last
  have hopens : opensImports b.last = false := by
    refine opensImports_of_head? fun hhead => ?_
    rw [htrim] at hhead
    exact absurd (Option.some.inj hhead) (by decide)
  cases hcomment : b.closing.comment with
  | some text =>
    have hcloses : closesImports b.last = false := by
      have hmem : '/' ∈ b.last := by
        rw [last, Tail.write, hcomment]
        simp
      exact closesImports_eq_false hmem rfl (by decide)
    have hspec : blockImport? b.last = none := by
      rw [blockImport?, htrim]
      rfl
    rw [lineKind, hopens, hcloses, hspec]
    rfl
  | none =>
    have hcloses : closesImports b.last = true := by
      have hblank : allBlank b.closing.write = true := by
        rw [Tail.write, hcomment, Option.map_none, Option.getD_none, List.append_nil]
        exact b.closing.blank_gap
      refine decide_eq_true ?_
      rw [last, trim_blank_append b.blank_back]
      exact trim_append_blank (s := [')']) hblank
    rw [lineKind, hopens, hcloses]
    rfl

end CodeSurvey.Go
