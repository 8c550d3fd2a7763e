-- How the declarations of a Python text lie in one another. When each header stands on
-- one line, two of them are apart or one is within the other, and each is named after
-- the class right around it.
import CodeSurvey.Proofs.Python.Block
import CodeSurvey.Proofs.Python.Header
import CodeSurvey.Proofs.Python.Pass
import Mathlib.Data.List.Induction
import Mathlib.Data.List.Pairwise

namespace CodeSurvey.Python

open Text

/-! ## Ranges of lines -/

namespace Declaration

/-- The line after `before` others is one of the declaration. -/
def Covers (d : Declaration) (before : Nat) : Prop := d.before ≤ before ∧ before ≤ d.last

/-- All lines of the first are lines of the second. -/
def Within (a b : Declaration) : Prop := b.before ≤ a.before ∧ a.last ≤ b.last

/-- No line belongs to both. -/
def Apart (a b : Declaration) : Prop := a.last < b.before ∨ b.last < a.before

/-- Of those that cover the first line of `d`, the one within all others. -/
structure Innermost (earlier : List Declaration) (d c : Declaration) : Prop where
  mem : c ∈ earlier
  covers : c.Covers d.before
  within : ∀ o ∈ earlier, o.Covers d.before → c.Within o

/-- The class that the block of a declaration belongs to, with its exported flag. -/
def asClass (d : Declaration) : Option (List Char × Bool) :=
  match d.owner with
  | .class_ qualified exported => some (qualified, exported)
  | .function => none

end Declaration

/-- The last of the declarations that goes on to a line, or over it. -/
def lastOver (before : Nat) (earlier : List Declaration) : Option Declaration :=
  earlier.reverse.find? fun d => decide (before ≤ d.last)

/-- Declarations in order, each placed among those before it: it is apart from them or within
them, and belongs to the last that it is within. -/
inductive Placed : List Declaration → Prop
  | nil : Placed []
  | snoc {earlier : List Declaration} {d : Declaration} : Placed earlier →
      (∀ e ∈ earlier, e.before < d.before) →
      (∀ e ∈ earlier, d.before ≤ e.last → d.last ≤ e.last) →
      d.enclosing = (lastOver d.before earlier).bind Declaration.asClass →
      Placed (earlier ++ [d])

theorem Placed.pairwise {all : List Declaration} (h : Placed all) :
    all.Pairwise fun a b => a.before < b.before ∧ (b.before ≤ a.last → b.last ≤ a.last) := by
  induction h with
  | nil => exact .nil
  | snoc _ hbefore hlast _ ih =>
    refine List.pairwise_append.2 ⟨ih, List.pairwise_singleton _ _, fun e he d hd => ?_⟩
    obtain rfl := List.mem_singleton.1 hd
    exact ⟨hbefore e he, hlast e he⟩

theorem Placed.upTo {earlier later : List Declaration} {d : Declaration}
    (h : Placed (earlier ++ d :: later)) : Placed (earlier ++ [d]) := by
  generalize hall : earlier ++ d :: later = all at h
  induction h generalizing later with
  | nil => simp at hall
  | @snoc before last hplaced hbefore hlast henclosing ih =>
    cases later using List.reverseRecOn with
    | nil => exact hall ▸ .snoc hplaced hbefore hlast henclosing
    | append_singleton later x =>
      rw [← List.cons_append, ← List.append_assoc] at hall
      exact ih (List.append_inj' hall rfl).1

theorem Placed.last {earlier : List Declaration} {d : Declaration} (h : Placed (earlier ++ [d])) :
    Placed earlier ∧ (∀ e ∈ earlier, e.before < d.before) ∧
      (∀ e ∈ earlier, d.before ≤ e.last → d.last ≤ e.last) ∧
      d.enclosing = (lastOver d.before earlier).bind Declaration.asClass := by
  generalize hall : earlier ++ [d] = all at h
  cases h with
  | nil => simp at hall
  | snoc hplaced hbefore hlast henclosing =>
    obtain ⟨rfl, hd⟩ := List.append_inj' hall rfl
    obtain rfl := List.singleton_inj.1 hd
    exact ⟨hplaced, hbefore, hlast, henclosing⟩

/-- Of two declarations one is within the other, or they are apart. -/
theorem Placed.laminar {all : List Declaration} (h : Placed all) {a b : Declaration} (ha : a ∈ all)
    (hb : b ∈ all) : a.Within b ∨ b.Within a ∨ a.Apart b := by
  let R : Declaration → Declaration → Prop := fun a b => a.Within b ∨ b.Within a ∨ a.Apart b
  have hsymm : Std.Symm R := ⟨by
    rintro a b (h | h | h)
    · exact .inr (.inl h)
    · exact .inl h
    · exact .inr (.inr h.symm)⟩
  have hpair : all.Pairwise R := h.pairwise.imp fun {a b} ⟨hbefore, hlast⟩ => .inr <| by
    rcases Nat.lt_or_ge a.last b.before with hapart | hover
    · exact .inr (.inl hapart)
    · exact .inl ⟨Nat.le_of_lt hbefore, hlast hover⟩
  exact hpair.forall_of_forall (fun a _ => .inl ⟨Nat.le_refl _, Nat.le_refl _⟩) ha hb

/-- The last declaration over a line is the one that is within all others over it. -/
theorem Placed.innermost {earlier : List Declaration} {d c : Declaration} (h : Placed earlier)
    (hbefore : ∀ e ∈ earlier, e.before < d.before) (hc : lastOver d.before earlier = some c) :
    Declaration.Innermost earlier d c := by
  obtain ⟨hover, later, outer, hsplit, hnone⟩ := List.find?_eq_some_iff_append.1 hc
  obtain rfl : earlier = outer.reverse ++ c :: later.reverse := by
    rw [← List.reverse_reverse earlier, hsplit]
    simp
  have hmem : c ∈ outer.reverse ++ c :: later.reverse := by simp
  refine ⟨hmem, ⟨Nat.le_of_lt (hbefore c hmem), of_decide_eq_true hover⟩, fun o ho hcovers => ?_⟩
  obtain ⟨-, hpair, hcross⟩ := List.pairwise_append.1 h.pairwise
  rcases List.mem_append.1 ho with ho | ho
  · obtain ⟨hlt, hwithin⟩ := hcross o ho c List.mem_cons_self
    exact ⟨Nat.le_of_lt hlt,
      hwithin (Nat.le_trans (Nat.le_of_lt (hbefore c hmem)) hcovers.2)⟩
  · rcases List.mem_cons.1 ho with rfl | ho
    · exact ⟨Nat.le_refl _, Nat.le_refl _⟩
    · have := hnone o (List.mem_reverse.1 ho)
      simp [hcovers.2] at this

theorem Placed.eq_of_before_eq {all : List Declaration} (h : Placed all) {a b : Declaration}
    (ha : a ∈ all) (hb : b ∈ all) (heq : a.before = b.before) : a = b := by
  let R : Declaration → Declaration → Prop := fun a b => a.before ≠ b.before
  have hsymm : Std.Symm R := ⟨fun _ _ hne => hne.symm⟩
  have hpair : all.Pairwise R := h.pairwise.imp fun hab => Nat.ne_of_lt hab.1
  by_contra hne
  exact hpair.forall ha hb hne heq

/-- There is one innermost declaration at most. -/
theorem Placed.lastOver_eq {earlier : List Declaration} {d c : Declaration} (h : Placed earlier)
    (hbefore : ∀ e ∈ earlier, e.before < d.before) (hc : Declaration.Innermost earlier d c) :
    lastOver d.before earlier = some c := by
  have hsome : (lastOver d.before earlier).isSome = true :=
    List.find?_isSome.2 ⟨c, List.mem_reverse.2 hc.mem, decide_eq_true hc.covers.2⟩
  obtain ⟨c', hc'⟩ := Option.isSome_iff_exists.1 hsome
  have hin := h.innermost hbefore hc'
  have hsame :=
    Nat.le_antisymm (hin.within c hc.mem hc.covers).1 (hc.within c' hin.mem hin.covers).1
  rw [hc', h.eq_of_before_eq hc.mem hin.mem hsame]

/-! ## The pass -/

/-- A declaration with the indent of its header. -/
abbrev Indented := Nat × Declaration

/-- The block that a declaration opens. -/
def scopeOf (e : Indented) : Scope := ⟨e.1, e.2.last, e.2.owner⟩

/-- What has been declared before the lines that the pass has still to look at, and the blocks
that it holds open. A block that goes on over the lines has its end from here where it has it from
its header, and of those that go on none has been closed too early. -/
structure Tracks (done : List Indented) (before : Nat) (scopes : List Scope)
    (lines : List (List Char)) : Prop where
  placed : Placed (done.map (·.2))
  earlier : ∀ e ∈ done, e.2.before < before
  ends : ∀ e ∈ done, before ≤ e.2.last → e.2.last + 1 = before + (blockOf e.1 lines).length
  open_ : ∀ later, before ≤ later → scopes.filter (fun s => decide (later ≤ s.last)) =
    (done.reverse.filter fun e => decide (later ≤ e.2.last)).map scopeOf

/-- The header at the stop, if it has an end, has it on its line. -/
def Stop.OnOneLine (p : Stop) : Prop :=
  ∀ declared, p.kind = .declaration declared → ∀ found ∈ p.header?, found.2 = 1

instance (p : Stop) : Decidable p.OnOneLine :=
  match h : p.kind with
  | .declaration declared => decidable_of_iff (∀ found ∈ p.header?, found.2 = 1)
      ⟨fun hone _ _ => hone, fun hone => hone declared h⟩
  | .decorator | .fromModule _ _ | .modules _ | .other => .isTrue fun _ hkind => by
      cases h.symm.trans hkind

theorem filter_dropWhile {α : Type} {p q : α → Bool} {l : List α}
    (h : ∀ a ∈ l, q a = true → p a = false) : (l.dropWhile p).filter q = l.filter q := by
  induction l with
  | nil => rfl
  | cons a l ih =>
    have ih := ih fun b hb => h b (List.mem_cons_of_mem a hb)
    cases hp : p a with
    | true =>
      have hq : q a = false := by
        by_contra hq
        simp [h a List.mem_cons_self (by simpa using hq)] at hp
      rw [List.dropWhile_cons_of_pos hp, ih, List.filter_cons_of_neg (by simp [hq])]
    | false => rw [List.dropWhile_cons_of_neg (by simp [hp])]

theorem head?_dropWhile_eq_find? {α : Type} {p q : α → Bool} {l : List α}
    (h : ∀ a ∈ l, p a = !q a) : (l.dropWhile p).head? = l.find? q := by
  induction l with
  | nil => rfl
  | cons a l ih =>
    have hp := h a List.mem_cons_self
    cases hq : q a with
    | true => rw [List.dropWhile_cons_of_neg (by simp [hp, hq]), List.find?_cons_of_pos hq]; rfl
    | false =>
      rw [List.dropWhile_cons_of_pos (by simp [hp, hq]), List.find?_cons_of_neg (by simp [hq])]
      exact ih fun b hb => h b (List.mem_cons_of_mem a hb)

theorem enclosingClass_eq (scopes : List Scope) : enclosingClass scopes =
    scopes.head?.bind fun s =>
      match s.owner with
      | .class_ qualified exported => some (qualified, exported)
      | .function => none := by
  cases scopes with
  | nil => rfl
  | cons s rest =>
    obtain ⟨indent, last, owner⟩ := s
    cases owner <;> rfl

namespace Tracks

variable {done : List Indented} {before : Nat} {scopes : List Scope} {lines rest : List (List Char)}
  {line : List Char} {p : Stop}

/-- A block that goes on over a line is one of those held open, and the line is indented
further than its header. -/
theorem deeper (h : Tracks done before scopes (line :: rest)) (hblank : allBlank line = false)
    {e : Indented} (he : e ∈ done) (hlast : before ≤ e.2.last) : e.1 < indentOf line := by
  have hends := h.ends e he hlast
  have hne : blockOf e.1 (line :: rest) ≠ [] := fun hnil => by
    rw [hnil, List.length_nil] at hends
    omega
  exact indent_lt_of_ne_nil hne hblank

/-- The pass has gone on over lines that declare nothing. -/
theorem skip (h : Tracks done before scopes lines) {k : Nat} {scopes' : List Scope}
    (hscopes : ∀ later, before ≤ later → scopes'.filter (fun s => decide (later ≤ s.last)) =
      scopes.filter (fun s => decide (later ≤ s.last))) :
    Tracks done (before + k) scopes' (lines.drop k) := by
  refine ⟨h.placed, fun e he => Nat.lt_add_right k (h.earlier e he), fun e he hlast => ?_,
    fun later hlater => ?_⟩
  · have hends := h.ends e he (by omega)
    rw [length_blockOf_drop (by omega)]
    omega
  · have hfrom : before ≤ later := Nat.le_trans (Nat.le_add_right before k) hlater
    exact (hscopes later hfrom).trans (h.open_ later hfrom)

/-- A header does not close a block that goes on over it. -/
theorem not_isOver (h : Tracks done before scopes (line :: rest)) (hblank : allBlank line = false)
    {s : Scope} (hs : s ∈ scopes) (hlast : before ≤ s.last) :
    s.isOver (indentOf line) before = false := by
  have hmem : s ∈ scopes.filter fun s => decide (before ≤ s.last) :=
    List.mem_filter.2 ⟨hs, decide_eq_true hlast⟩
  rw [h.open_ before (Nat.le_refl _)] at hmem
  obtain ⟨e, he, rfl⟩ := List.mem_map.1 hmem
  obtain ⟨hdone, -⟩ := List.mem_filter.1 he
  have hdeeper := h.deeper hblank (List.mem_reverse.1 hdone) hlast
  refine Bool.eq_false_iff.2 fun hover => ?_
  rcases Scope.isOver_iff.1 hover with hover | hover
  · exact Nat.not_le.2 hdeeper hover
  · exact Nat.not_le.2 hover hlast

/-- The blocks that a header leaves open are those that go on over it. -/
theorem outer_filter (h : Tracks done before scopes (line :: rest)) (hblank : allBlank line = false)
    {later : Nat} (hlater : before ≤ later) :
    (stillOpen (indentOf line) before scopes).filter (fun s => decide (later ≤ s.last)) =
      scopes.filter fun s => decide (later ≤ s.last) :=
  filter_dropWhile fun _ hs hlast =>
    h.not_isOver hblank hs (Nat.le_trans hlater (of_decide_eq_true hlast))

/-- A declaration belongs to the class whose block goes on over its header, if no block began
later that does so. -/
theorem enclosing (h : Tracks done before scopes (line :: rest)) (hblank : allBlank line = false) :
    enclosingClass (stillOpen (indentOf line) before scopes) =
      (lastOver before (done.map (·.2))).bind Declaration.asClass := by
  have hover : ∀ s ∈ scopes, s.isOver (indentOf line) before = !decide (before ≤ s.last) := by
    intro s hs
    by_cases hlast : before ≤ s.last
    · rw [h.not_isOver hblank hs hlast, decide_eq_true hlast, Bool.not_true]
    · rw [Scope.isOver_iff.2 (.inr (Nat.not_le.1 hlast)), decide_eq_false hlast, Bool.not_false]
  have hhead : (stillOpen (indentOf line) before scopes).head? =
      (done.reverse.find? fun e => decide (before ≤ e.2.last)).map scopeOf := by
    rw [stillOpen_eq, head?_dropWhile_eq_find? hover, ← List.head?_filter,
      h.open_ before (Nat.le_refl _), List.head?_map, List.head?_filter]
  have hlast : lastOver before (done.map (·.2)) =
      (done.reverse.find? fun e => decide (before ≤ e.2.last)).map (·.2) := by
    rw [lastOver, ← List.map_reverse, List.find?_map]
    rfl
  rw [enclosingClass_eq, hhead, hlast]
  cases done.reverse.find? fun e => decide (before ≤ e.2.last) <;> rfl

/-- The pass has gone on over the header of a declaration, on one line. -/
theorem declare (h : Tracks done before scopes (line :: rest)) (hblank : allBlank line = false)
    {d : Declaration} (hbefore : d.before = before)
    (hlast : d.last = before + (blockOf (indentOf line) rest).length)
    (henclosing : d.enclosing = enclosingClass (stillOpen (indentOf line) before scopes)) :
    Tracks (done ++ [(indentOf line, d)]) (before + 1)
      (scopeOf (indentOf line, d) :: stillOpen (indentOf line) before scopes) rest := by
  have hplaced : Placed (done.map (·.2) ++ [d]) := by
    refine .snoc h.placed ?_ ?_ (by rw [henclosing, hbefore, h.enclosing hblank])
    · intro x hx
      obtain ⟨e, he, rfl⟩ := List.mem_map.1 hx
      exact hbefore ▸ h.earlier e he
    · intro x hx hover
      obtain ⟨e, he, rfl⟩ := List.mem_map.1 hx
      rw [hbefore] at hover
      -- The block of `e`, seen from the line, has the line and all of the deeper block.
      have hends := h.ends e he hover
      have hdeeper := h.deeper hblank he hover
      rw [blockOf_cons_deeper hblank hdeeper, List.length_cons] at hends
      have hmono := length_blockOf_mono (Nat.le_of_lt hdeeper) rest
      omega
  refine ⟨by simpa using hplaced, fun e he => ?_, fun e he hover => ?_, fun later hlater => ?_⟩
  · rcases List.mem_append.1 he with he | he
    · exact Nat.lt_succ_of_lt (h.earlier e he)
    · obtain rfl := List.mem_singleton.1 he
      exact hbefore ▸ Nat.lt_succ_self before
  · rcases List.mem_append.1 he with he | he
    · have hends := h.ends e he (Nat.le_of_succ_le hover)
      rw [blockOf_cons_deeper hblank (h.deeper hblank he (Nat.le_of_succ_le hover)),
        List.length_cons] at hends
      omega
    · obtain rfl := List.mem_singleton.1 he
      change d.last + 1 = before + 1 + (blockOf (indentOf line) rest).length
      rw [hlast]
      omega
  · have hfrom : before ≤ later := Nat.le_of_succ_le hlater
    rw [List.reverse_append, List.reverse_singleton, List.singleton_append, List.filter_cons,
      List.filter_cons, h.outer_filter hblank hfrom, h.open_ later hfrom]
    change (if decide (later ≤ d.last) = true then _ else _) =
      (if decide (later ≤ d.last) = true then _ else _ : List Indented).map scopeOf
    split <;> rfl

end Tracks

/-- When each header that has an end has it on its line, the declarations of the pass are placed
among those before them. -/
theorem placed_stops {done : List Indented} {before : Nat} {scopes : List Scope}
    {lines : List (List Char)} (docs : Bool) (h : Tracks done before scopes lines)
    (hone : ∀ p ∈ stops before scopes lines, p.OnOneLine) :
    Placed (done.map (·.2) ++ (stops before scopes lines).filterMap (·.found? docs)) := by
  fun_induction stops before scopes lines generalizing done with
  | case1 => simpa using h.placed
  | case2 before scopes line rest p =>
    rename_i ih
    have hone' := fun q hq => hone q (List.mem_cons_of_mem p hq)
    have hskip (hfound : p.found? docs = none)
        (hinner : ∀ later, before ≤ later → p.inner.filter (fun s => decide (later ≤ s.last)) =
          scopes.filter (fun s => decide (later ≤ s.last))) :
        Placed (done.map (·.2) ++ (p :: stops (before + 1 + p.used) p.inner
          (rest.drop p.used)).filterMap (·.found? docs)) := by
      rw [List.filterMap_cons_none hfound]
      have := h.skip (k := p.used + 1) hinner
      rw [List.drop_succ_cons, Nat.add_comm p.used, ← Nat.add_assoc] at this
      exact ih this hone'
    cases hkind : p.kind with
    | decorator | fromModule | modules | other =>
      refine hskip (by rw [Stop.found?, hkind]) fun later _ => ?_
      rw [Stop.inner_eq_scopes fun declared heq => by rw [hkind] at heq; cases heq]
    | declaration declared =>
      have hblank : allBlank line = false := not_allBlank_of_declares hkind
      cases hheader : p.header? with
      | none =>
        refine hskip (by rw [Stop.found?, hkind]; simp [hheader]) fun later hlater => ?_
        rw [Stop.inner, Stop.scan_unfinished hkind hheader]
        exact h.outer_filter hblank hlater
      | some found =>
        obtain ⟨header, size⟩ := found
        obtain rfl : size = 1 := hone p List.mem_cons_self declared hkind _ hheader
        have hfound : p.found? docs = some (p.declaration docs declared header 1) := by
          rw [Stop.found?, hkind]
          simp [hheader]
        have hstep := h.declare hblank (d := p.declaration docs declared header 1) rfl rfl rfl
        have hscan : p.scan false = _ := Stop.scan_declaration hkind hheader
        have hused : p.used = 0 := congrArg (·.2.1) hscan
        have hinner : p.inner = scopeOf (indentOf line, p.declaration docs declared header 1) ::
            stillOpen (indentOf line) before scopes := congrArg (·.2.2) hscan
        rw [← hinner] at hstep
        rw [hused] at ih hone' ⊢
        have := ih hstep hone'
        rw [List.filterMap_cons_some hfound]
        simpa using this

/-! ## Names -/

namespace Declaration

/-- The declaration has the lines from one that begins it, and its fact tells of them. -/
structure Stands (d : Declaration) (lines : List (List Char)) : Prop where
  line : ∃ line, lines[d.before]? = some line ∧ lineKind line = .declaration d.declared
  ordered : d.before ≤ d.last
  within : d.last < lines.length
  startLine : d.whole.startLine = lineNumber d.before
  endLine : d.whole.endLine = lineNumber d.last

/-- The name and the kind of the declaration, as the innermost one around its first line says. -/
structure Named (d : Declaration) (earlier : List Declaration) : Prop where
  inClass : ∀ c, Innermost earlier d c → c.whole.kind = .class_ →
    d.whole.name = c.whole.name ++ "." ++ String.ofList d.declared.name ∧
      d.whole.kind = d.declared.kind true
  alone : (∀ c, Innermost earlier d c → c.whole.kind ≠ .class_) →
    d.whole.name = String.ofList d.declared.name ∧ d.whole.kind = d.declared.kind false
  method : d.whole.kind = .method → ∃ c ∈ earlier, c.whole.kind = .class_ ∧
    d.whole.name = c.whole.name ++ "." ++ String.ofList d.declared.name ∧ d.Within c

theorem asClass_eq (d : Declaration) : d.asClass =
    if d.whole.kind = .class_ then
      some (d.qualify d.declared.name, d.exports d.declared.name)
    else none := by
  rw [kind_whole]
  unfold asClass owner
  cases d.declared with
  | function name isAsync => cases d.enclosing.isSome <;> rfl
  | class_ name => rfl

end Declaration

/-- A declaration that a stop tells of has lines of the text. -/
theorem stands_of_found {docs : Bool} {p : Stop} {d : Declaration} {lines : List (List Char)}
    (hdrop : lines.drop p.before = p.line :: p.rest) (h : p.found? docs = some d) :
    d.Stands lines := by
  unfold Stop.found? at h
  split at h
  · rename_i declared hkind
    obtain ⟨⟨header, size⟩, hheader, rfl⟩ := Option.map_eq_some_iff.1 h
    have hlength : lines.length = p.before + (p.rest.length + 1) := by
      have := congrArg List.length hdrop
      rw [List.length_drop, List.length_cons] at this
      omega
    have hline : lines[p.before]? = some p.line := by
      rw [← List.head?_drop, hdrop, List.head?_cons]
    obtain ⟨-, hsize, -⟩ := readOn_size hheader
    have hblock := length_blockOf_le p.indent (p.rest.drop (size - 1))
    rw [List.length_drop] at hblock
    rw [List.length_cons] at hsize
    refine ⟨⟨p.line, hline, hkind⟩, ?_, ?_, Declaration.startLine_whole _,
      Declaration.endLine_whole _⟩
    · change p.before ≤ p.before + (size - 1) + _
      omega
    · change p.before + (size - 1) + _ < _
      omega
  · cases h

/-- A declaration is named after the last one that goes on over its first line. -/
theorem Placed.named {earlier : List Declaration} {d : Declaration} (h : Placed (earlier ++ [d])) :
    d.Named earlier := by
  obtain ⟨hplaced, hbefore, hlast, henclosing⟩ := h.last
  have hover : ∀ c, Declaration.Innermost earlier d c → d.enclosing = c.asClass := fun c hc => by
    rw [henclosing, hplaced.lastOver_eq hbefore hc, Option.bind_some]
  have hname := d.name_whole
  have hkind := d.kind_whole
  have hinside : ∀ c, Declaration.Innermost earlier d c → c.whole.kind = .class_ →
      d.whole.name = c.whole.name ++ "." ++ String.ofList d.declared.name ∧
        d.whole.kind = d.declared.kind true := fun c hc hclass => by
    have hin := hover c hc
    rw [c.asClass_eq, if_pos hclass] at hin
    rw [hin] at hkind
    refine ⟨?_, hkind⟩
    rw [hname, c.name_whole, Declaration.qualify, hin, ← String.toList_inj]
    simp
  have houtside : (∀ c, Declaration.Innermost earlier d c → c.whole.kind ≠ .class_) →
      d.whole.name = String.ofList d.declared.name ∧ d.whole.kind = d.declared.kind false := by
    intro hnone
    have hout : d.enclosing = none := by
      cases hc : lastOver d.before earlier with
      | none => rw [henclosing, hc, Option.bind_none]
      | some c =>
        have hinner := hplaced.innermost hbefore hc
        rw [hover c hinner, c.asClass_eq, if_neg (hnone c hinner)]
    rw [hout] at hkind
    exact ⟨by rw [hname, Declaration.qualify, hout], hkind⟩
  refine ⟨hinside, houtside, fun hmethod => ?_⟩
  by_cases hclass : ∃ c, Declaration.Innermost earlier d c ∧ c.whole.kind = .class_
  · obtain ⟨c, hc, hclass⟩ := hclass
    exact ⟨c, hc.mem, hclass, (hinside c hc hclass).1, Nat.le_of_lt (hbefore c hc.mem),
      hlast c hc.mem hc.covers.2⟩
  · have hkind := (houtside fun c hc hk => hclass ⟨c, hc, hk⟩).2
    rw [hmethod] at hkind
    cases hd : d.declared <;> simp [hd, Declared.kind] at hkind

/-- When each header that has an end has it on its own line, then of two declarations one is
within the other or they are apart, and each is named after the innermost one around its first
line, when that is a class. -/
theorem nested_and_named (docs : Bool) {source : String} (h : ∀ p ∈ stopsOf source, p.OnOneLine) :
    (survey docs source).facts = (declarations docs source).map Declaration.whole ∧
      (∀ d ∈ declarations docs source, d.Stands (lines source.toList)) ∧
      (∀ a ∈ declarations docs source, ∀ b ∈ declarations docs source,
        a.Within b ∨ b.Within a ∨ a.Apart b) ∧
      ∀ earlier d later, declarations docs source = earlier ++ d :: later → d.Named earlier := by
  have hstart : Tracks [] 0 [] (lines source.toList) := ⟨.nil, by simp, by simp, fun _ _ => rfl⟩
  have hplaced : Placed (declarations docs source) := placed_stops docs hstart h
  refine ⟨facts_survey docs source, fun d hd => ?_, fun a ha b hb => hplaced.laminar ha hb,
    fun earlier d later hsplit => (hsplit ▸ hplaced).upTo.named⟩
  obtain ⟨p, hp, hfound⟩ := List.mem_filterMap.1 hd
  exact stands_of_found (drop_of_mem_stopsOf hp) hfound

namespace Nest

/-- A class in a class, functions in functions, blank lines, and a line that is further out than
the block around it but not than the outer one. -/
def source : String :=
  "class A:\n    class B:\n        def f(self): pass\n\n        async def g(self):\n" ++
    "            def h(): pass\n  # out\n    def k(self): pass\n\ndef m(): pass\n"

end Nest

/-- Methods of the inner class are named after both, and what stands after the line further out
is in the outer class alone. -/
theorem nested_and_named_of_two_classes : (∀ p ∈ stopsOf Nest.source, p.OnOneLine) ∧
    (survey true Nest.source).facts.map (fun f => (f.name, f.kind, f.startLine, f.endLine)) =
      [("A", .class_, 1, 8), ("A.B", .class_, 2, 6), ("A.B.f", .method, 3, 3),
        ("A.B.g", .method, 5, 6), ("h", .function, 6, 6), ("A.k", .method, 8, 8),
        ("m", .function, 10, 10)] ∧
    (∀ d ∈ declarations true Nest.source, d.Stands (lines Nest.source.toList)) ∧
    (∀ a ∈ declarations true Nest.source, ∀ b ∈ declarations true Nest.source,
      a.Within b ∨ b.Within a ∨ a.Apart b) ∧
    ∀ earlier d later, declarations true Nest.source = earlier ++ d :: later → d.Named earlier := by
  have hone : ∀ p ∈ stopsOf Nest.source, p.OnOneLine := by decide +kernel
  obtain ⟨-, hstands, hnested, hnamed⟩ := nested_and_named true hone
  exact ⟨hone, by decide +kernel, hstands, hnested, hnamed⟩

end CodeSurvey.Python
