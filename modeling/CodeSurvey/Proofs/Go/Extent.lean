-- Functions and methods one after the other, as the lexical rules of Go cut them. The survey
-- tells of each of them, and each ends where the brace that opens its body is closed, exactly
-- when the braces that it counts come out there. They do when the literals are tame; with other
-- literals it takes braces for others than they are.
import CodeSurvey.Proofs.Go.Heading
import CodeSurvey.Proofs.Go.Lexical

namespace CodeSurvey.Go

open Text

/-! ## Written declarations -/

/-- The outermost of the open blocks is closed on the last of the lines. -/
def closes (depth : Nat) : List (List Lexeme) → Bool
  | [] => false
  | line :: rest =>
    match line.foldlM Lexeme.next? depth with
    | none => false
    | some 0 => rest.isEmpty
    | some d => closes d rest

/-- A function or a method, with its header and the brace that opens its body on the first line.
The braces of types in the header close in it; the body's is closed on the last line. -/
structure Declaration where
  heading : Heading
  header : List Lexeme
  /-- The first line, behind the brace. -/
  inner : List Lexeme
  first : Line
  more : List Line
  begins : heading.write <+: written header
  level : header.foldlM Lexeme.next? 1 = some 1
  opens : first.lexemes = header ++ Lexeme.opening :: inner
  closed : closes 1 (inner :: more.map (·.lexemes)) = true

namespace Declaration

def lines (d : Declaration) : List (List Char) := (d.first :: d.more).map (·.write)

/-- The name is an ASCII name, and all literals are tame. -/
structure IsPlain (d : Declaration) : Prop where
  isAscii : d.heading.IsAscii
  isTame : ∀ line ∈ d.first :: d.more, line.IsTame

end Declaration

/-- A line between declarations: blanks, a comment, or the clause that names the package. -/
def isBetween (line : List Char) : Bool :=
  match trimStart line with
  | [] => true
  | '/' :: '/' :: _ => true
  | s => (afterKeyword? ['p', 'a', 'c', 'k', 'a', 'g', 'e'] s).isSome

theorem isBetween_nil : isBetween [] = true := rfl

/-- The parts of a file. -/
inductive Part where
  | between (line : List Char) (h : isBetween line = true)
  | declaration (d : Declaration)

def Part.lines : Part → List (List Char)
  | .between line _ => [line]
  | .declaration d => d.lines

/-- The declarations of the parts, each with the number of lines before it. -/
def placed (before : Nat) : List Part → List (Nat × Declaration)
  | [] => []
  | .between _ _ :: parts => placed (before + 1) parts
  | .declaration d :: parts => (before, d) :: placed (before + d.lines.length) parts

/-- The fact is that of the declaration, with the lines from its first to its last. -/
structure Told (before : Nat) (d : Declaration) (f : Fact) : Prop where
  kind : f.kind = if d.heading.receiver.isSome then .method else .function
  name : f.name = String.ofList
    ((d.heading.receiver.map fun r => receiverName r.text ++ ['.']).getD [] ++ d.heading.name)
  startLine : f.startLine = lineNumber before
  endLine : f.endLine = lineNumber (before + (d.lines.length - 1))

/-! ## What is counted -/

/-- The opening braces that the survey counts on the lines, less the closing ones. -/
def net : List (List Char) → Int
  | [] => 0
  | line :: lines => (Braces.start.line line).depth + net lines

/-- The declaration is cut where it ends when `after` follows it: of the braces that are counted
some are open behind each of its lines but the last, and none behind that. The last line of a file
is the end in any case. -/
structure Declaration.IsCut (d : Declaration) (after : List (List Char)) : Prop where
  goesOn : ∀ k < d.more.length, 0 < net (d.lines.take (k + 1))
  ends : after ≠ [] → net d.lines ≤ 0

/-- Each declaration of the parts is cut where it ends. -/
def AreCut : List Part → Prop
  | [] => True
  | .between _ _ :: parts => AreCut parts
  | .declaration d :: parts => d.IsCut (parts.flatMap Part.lines) ∧ AreCut parts

namespace Braces

/-- What is counted on a text does not depend on what was counted before. -/
theorem depth_over (b b' : Braces) (inString : Bool) (s : List Char) :
    (b.over inString s).depth - b.depth = (b'.over inString s).depth - b'.depth := by
  induction s generalizing b b' inString with
  | nil => simp [Braces.over]
  | cons c s ih =>
    rw [Braces.over, Braces.over]
    split_ifs
    · exact ih _ _ _
    · have := ih ⟨b.depth + 1, true⟩ ⟨b'.depth + 1, true⟩ inString
      dsimp only at this
      omega
    · have := ih { b with depth := b.depth - 1 } { b' with depth := b'.depth - 1 } inString
      dsimp only at this
      omega
    · exact ih _ _ _

theorem depth_line (b : Braces) (line : List Char) :
    (b.line line).depth = b.depth + (start.line line).depth := by
  have h := depth_over b start false (before ['/', '/'] line)
  have hstart : start.depth = 0 := rfl
  rw [hstart] at h
  unfold Braces.line
  omega

/-- Where braces are open one was met. -/
def Met (b : Braces) : Prop := 0 < b.depth → b.opened = true

theorem Met.over {b : Braces} (h : b.Met) (inString : Bool) (s : List Char) :
    (b.over inString s).Met := by
  induction s generalizing b inString with
  | nil => exact h
  | cons c s ih =>
    rw [Braces.over]
    split_ifs
    · exact ih h _
    · exact ih (fun _ => rfl) _
    · refine ih (b := { b with depth := b.depth - 1 }) (fun hpos => h ?_) _
      have hpos : 0 < b.depth - 1 := hpos
      omega
    · exact ih h _

theorem Met.line {b : Braces} (h : b.Met) (line : List Char) : (b.line line).Met := h.over _ _

theorem Met.stops {b : Braces} (h : b.Met) :
    (!b.opened || decide (b.depth ≤ 0)) = decide (b.depth ≤ 0) := by
  by_cases hdepth : b.depth ≤ 0
  · simp [hdepth]
  · simp [hdepth, h (by omega)]

end Braces

/-- The lines are used up to the last of them exactly when the count goes on behind each of the
others and stops there. -/
theorem extraLines_eq_iff {b : Braces} (hmet : b.Met) (line : List Char)
    (rest after : List (List Char)) : extraLines b (line :: (rest ++ after)) = rest.length ↔
      (∀ k < rest.length, 0 < b.depth + net ((line :: rest).take (k + 1))) ∧
        (after ≠ [] → b.depth + net (line :: rest) ≤ 0) := by
  induction rest generalizing b line with
  | nil =>
    have hnet : net [line] = (Braces.start.line line).depth := by simp [net]
    rw [List.nil_append, extraLines, (hmet.line line).stops, b.depth_line line, hnet]
    by_cases hdepth : b.depth + (Braces.start.line line).depth ≤ 0
    · simp [hdepth]
    · cases after <;> simp [hdepth]
  | cons next rest ih =>
    have ih := ih (hmet.line line) next
    rw [b.depth_line line] at ih
    rw [List.cons_append, extraLines, (hmet.line line).stops, b.depth_line line]
    by_cases hdepth : b.depth + (Braces.start.line line).depth ≤ 0
    · rw [if_pos (decide_eq_true hdepth)]
      have hfirst : net ((line :: next :: rest).take 1) = (Braces.start.line line).depth := by
        simp [net]
      constructor
      · intro h
        cases h
      · intro h
        have hopen := h.1 0 (Nat.succ_pos _)
        rw [hfirst] at hopen
        omega
    · rw [if_neg (by simpa using hdepth), List.isEmpty_cons, if_neg Bool.false_ne_true,
        List.length_cons, Nat.succ_inj, ih, Nat.forall_lt_succ_left]
      simp only [List.take_succ_cons, List.take_zero, net, Int.add_assoc, Int.add_zero]
      have hfirst : 0 < b.depth + (Braces.start.line line).depth := by omega
      simp only [hfirst, true_and]

/-! ## Where a declaration ends -/

/-- From a line on behind which as many blocks are open as are counted, the lines are used up to
the one on which the outermost is closed, whatever follows. -/
theorem extraLines_of_closes {b : Braces} {line : List Char} {lexemes : List Lexeme} {depth : Nat}
    {rest : List Line} (hline : b.line line = lexemes.foldl Braces.past ⟨depth, true⟩)
    (htame : ∀ l ∈ rest, l.IsTame) (h : closes depth (lexemes :: rest.map (·.lexemes)) = true)
    (after : List (List Char)) :
    extraLines b (line :: (rest.map (·.write) ++ after)) = rest.length := by
  -- Line by line: where `closes` stops the count is zero too, and where it goes on it is not.
  induction rest generalizing b line lexemes depth with
  | nil =>
    rw [closes] at h
    cases hdepth : lexemes.foldlM Lexeme.next? depth with
    | none => rw [hdepth] at h; cases h
    | some d =>
      cases d with
      | succ d => rw [hdepth] at h; cases h
      | zero =>
        obtain ⟨opened, hfold, hopened⟩ := Braces.foldl_past hdepth 0 true
        rw [Int.add_zero, hopened rfl] at hfold
        rw [extraLines, hline, hfold]
        rfl
  | cons next rest ih =>
    obtain ⟨hnext, htame⟩ := List.forall_mem_cons.1 htame
    rw [closes] at h
    cases hdepth : lexemes.foldlM Lexeme.next? depth with
    | none => rw [hdepth] at h; cases h
    | some d =>
      cases d with
      | zero => rw [hdepth] at h; cases h
      | succ d =>
        rw [hdepth] at h
        obtain ⟨opened, hfold, hopened⟩ := Braces.foldl_past hdepth 0 true
        rw [Int.add_zero, hopened rfl] at hfold
        have hline' : Braces.line ⟨((d + 1 : Nat) : Int) + 0, true⟩ next.write =
            next.lexemes.foldl Braces.past ⟨(d + 1 : Nat), true⟩ := by
          rw [Braces.line_write hnext, Int.add_zero]
        have hrest := ih hline' htame h
        rw [extraLines, hline, hfold, List.map_cons, List.cons_append, hrest]
        simp

/-- The lines of a plain declaration are those that the survey takes for it. -/
theorem Declaration.IsPlain.extraLines_lines {d : Declaration} (h : d.IsPlain)
    (after : List (List Char)) : extraLines Braces.start (d.lines ++ after) = d.more.length := by
  obtain ⟨hfirst, hmore⟩ := List.forall_mem_cons.1 h.isTame
  -- The header starts with one block open, where the count starts with none: one less is counted
  -- until the brace of the body is met.
  obtain ⟨opened, hheader, -⟩ := Braces.foldl_past d.level (-1) false
  have hline : Braces.start.line d.first.write = d.inner.foldl Braces.past ⟨(1 : Nat), true⟩ := by
    have hstart : Braces.start = ⟨(1 : Nat) + -1, false⟩ := rfl
    rw [Braces.line_write hfirst, d.opens, List.foldl_append, List.foldl_cons, hstart, hheader]
    rfl
  exact extraLines_of_closes hline hmore d.closed after

/-! ## The pass over the parts -/

theorem type?_of_head?_ne {line : List Char} (h : line.head? ≠ some 't') : type? line = none := by
  rw [type?, afterKeyword?_of_head?_ne h]
  rfl

theorem func?_of_head?_ne {line : List Char} (h : line.head? ≠ some 'f') : func? line = none := by
  rw [func?, method?, function?, dropFront?_of_head?_ne h, afterKeyword?_of_head?_ne h]
  rfl

/-- A line that begins with none of three letters declares and imports nothing. -/
theorem lineKind_of_head {line : List Char} (h : ∀ c ∈ (trimStart line).head?, c ∉ ['i', 't', 'f']) :
    lineKind false line = .other := by
  have hne : ∀ {c : Char}, c ∈ ['i', 't', 'f'] → (trimStart line).head? ≠ some c :=
    fun hc heq => h _ heq hc
  have hline : ∀ {c : Char}, c ∈ ['i', 't', 'f'] → line.head? ≠ some c := by
    intro c hc heq
    have hblank : ['i', 't', 'f'].any isBlank = false := by decide
    refine hne hc ?_
    rwa [trimStart, dropWhile_eq_self]
    intro d hd
    rw [← Option.some.inj (heq.symm.trans hd)]
    exact Bool.eq_false_iff.2 (List.any_eq_false.1 hblank c hc)
  have hopens : opensImports line = false := by
    rw [opensImports, dropFront?_of_head?_ne (hne (by simp))]
  have himport : import? line = none := by
    rw [import?, afterKeyword?_of_head?_ne (hne (by simp))]
    rfl
  rw [lineKind, hopens, himport, type?_of_head?_ne (hline (by simp)),
    func?_of_head?_ne (hline (by simp))]
  rfl

theorem lineKind_of_isBetween {line : List Char} (h : isBetween line = true) :
    lineKind false line = .other := by
  refine lineKind_of_head fun c hc => ?_
  unfold isBetween at h
  split at h
  · rename_i hnil
    rw [hnil] at hc
    cases hc
  · rename_i hslashes
    rw [hslashes] at hc
    obtain rfl := Option.some.inj hc
    decide
  · obtain ⟨rest, hrest⟩ := Option.isSome_iff_exists.1 h
    obtain ⟨d, r, heq, -⟩ := afterKeyword?_eq_some_iff.1 hrest
    rw [heq] at hc
    obtain rfl := Option.some.inj hc
    decide

/-- A stop at a declaration with an ASCII name is a stop at its heading. -/
theorem Declaration.kind {d : Declaration} (h : d.heading.IsAscii) {p : Stop}
    (hopen : p.inImports = false) {after : List (List Char)}
    (hlines : p.line :: p.rest = d.lines ++ after) :
    ∃ rest, p.kind = .func (d.heading.head rest) := by
  have hline : p.line = d.first.write := (List.cons.inj hlines).1
  obtain ⟨rest, hrest⟩ : ∃ rest, p.line = d.heading.write ++ rest := by
    obtain ⟨rest, hrest⟩ := d.begins
    have hfirst : d.first.write = written d.header ++ (written (Lexeme.opening :: d.inner) ++
        (d.first.comment.map fun text => '/' :: '/' :: text).getD []) := by
      rw [Line.write, d.opens]
      simp [written]
    exact ⟨_, by rw [hline, hfirst, ← hrest, List.append_assoc]⟩
  exact ⟨rest, by rw [Stop.kind, hopen, hrest, Heading.lineKind_write, if_pos h]⟩

/-- The lines that such a stop uses up are those of the declaration exactly when it is cut where it
ends. -/
theorem Declaration.extra_eq_iff {d : Declaration} {p : Stop} {after : List (List Char)}
    (hlines : p.line :: p.rest = d.lines ++ after) : p.extra = d.more.length ↔ d.IsCut after := by
  have hmet : Braces.start.Met := fun h => absurd h (by decide)
  have hsplit : d.lines ++ after = d.first.write :: (d.more.map (·.write) ++ after) := rfl
  have hcount := extraLines_eq_iff hmet d.first.write (d.more.map (·.write)) after
  have hdepth : Braces.start.depth = 0 := rfl
  simp only [List.length_map, hdepth, Int.zero_add] at hcount
  rw [Stop.extra, hlines, hsplit, hcount]
  exact ⟨fun h => ⟨h.1, h.2⟩, fun h => ⟨h.goesOn, h.ends⟩⟩

/-- A stop at a declaration with an ASCII name tells of a fact that begins there, uses up the lines
that it is told with, and leaves no more open. -/
theorem Declaration.exists_fact {d : Declaration} (h : d.heading.IsAscii) (docs : Bool) {p : Stop}
    (hopen : p.inImports = false) {after : List (List Char)}
    (hlines : p.line :: p.rest = d.lines ++ after) :
    ∃ f, p.fact? docs = some f ∧ f.endLine = lineNumber (p.before + p.extra) ∧
      (p.extra = d.more.length → Told p.before d f) ∧ p.used = p.extra ∧ p.leavesOpen = false := by
  obtain ⟨rest, hkind⟩ := d.kind h hopen hlines
  have htell : p.tell docs =
      tellFunc (d.heading.head rest) (p.line :: p.rest.take p.extra) p.before (p.doc docs) := by
    unfold Stop.tell
    rw [hkind]
  have hfact : ∃ f, p.fact? docs = some f := by
    rw [Stop.fact?, htell]
    exact ⟨_, rfl⟩
  obtain ⟨f, hf⟩ := hfact
  obtain ⟨hstart, hend⟩ := Stop.lines_fact hf
  have hlength : d.lines.length - 1 = d.more.length := by simp [Declaration.lines]
  have hused : p.used = p.extra := by rw [Stop.used, hkind]
  have hclosed : p.leavesOpen = false := by
    rw [Stop.leavesOpen, hkind]
    exact hopen
  refine ⟨f, hf, hend, fun hextra => ⟨?_, ?_, hstart, by rw [hend, hextra, hlength]⟩, hused,
    hclosed⟩
  all_goals
    rw [Stop.fact?, htell] at hf
    obtain rfl := Option.some.inj hf
    unfold Heading.head
    cases d.heading.receiver
  · rfl
  · rfl
  · rfl
  · simp [Fact.bare]

/-- A stop at a line between declarations tells of nothing and uses up no more lines. -/
theorem Stop.tells_nothing (docs : Bool) {p : Stop} (hopen : p.inImports = false)
    (h : isBetween p.line = true) : p.fact? docs = none ∧ p.used = 0 ∧ p.leavesOpen = false := by
  have hkind : p.kind = .other := by rw [Stop.kind, hopen, lineKind_of_isBetween h]
  refine ⟨?_, by rw [Stop.used, hkind], by rw [Stop.leavesOpen, hkind]; exact hopen⟩
  rw [Stop.fact?, Stop.tell, hkind]
  rfl

/-- A line between declarations adds nothing to what is told behind it. -/
theorem facts_between (docs : Bool) {line : List Char} (h : isBetween line = true) (before : Nat)
    (above rest : List (List Char)) :
    (stops before above false (line :: rest)).filterMap (·.fact? docs) =
      (stops (before + 1) (line :: above) false rest).filterMap (·.fact? docs) := by
  let p : Stop := ⟨before, above, false, line, rest⟩
  obtain ⟨hfact, hused, hclosed⟩ := Stop.tells_nothing docs (p := p) rfl h
  have hrest := filterMap_stops docs p
  rwa [hfact, hused, hclosed] at hrest

/-- A declaration that is cut where it ends adds its fact in front of what is told behind it. -/
theorem facts_declaration (docs : Bool) {d : Declaration} (h : d.heading.IsAscii)
    {after : List (List Char)} (hcut : d.IsCut after) (before : Nat) (above : List (List Char)) :
    ∃ f above', Told before d f ∧
      (stops before above false (d.lines ++ after)).filterMap (·.fact? docs) =
        f :: (stops (before + d.lines.length) above' false after).filterMap (·.fact? docs) := by
  let p : Stop := ⟨before, above, false, d.first.write, d.more.map (·.write) ++ after⟩
  obtain ⟨f, hf, -, htold, hused, hclosed⟩ := d.exists_fact h docs (p := p) rfl rfl
  have hextra : p.extra = d.more.length := (d.extra_eq_iff rfl).2 hcut
  have hdrop : p.rest.drop d.more.length = after := List.drop_left' (by simp)
  have hbefore : before + 1 + d.more.length = before + d.lines.length := by
    simp [Declaration.lines]
    omega
  have hrest := filterMap_stops docs p
  rw [hf, hused, hclosed, hextra, hdrop] at hrest
  exact ⟨f, _, htold hextra, hbefore ▸ hrest⟩

/-- From a line on, outside of a block of imports, each declaration of the parts is told, if each is
cut where it ends. -/
theorem told_stops (docs : Bool) {parts : List Part}
    (hascii : ∀ d, Part.declaration d ∈ parts → d.heading.IsAscii) (hcut : AreCut parts)
    (before : Nat) (above : List (List Char)) :
    List.Forall₂ (fun p f => Told p.1 p.2 f) (placed before parts)
      ((stops before above false (parts.flatMap Part.lines)).filterMap (·.fact? docs)) := by
  -- The parts open no block of imports, so that the pass is outside of one at each of them.
  induction parts generalizing before above with
  | nil =>
    rw [List.flatMap_nil, stops]
    exact .nil
  | cons part parts ih =>
    have ih := ih fun d hd => hascii d (List.mem_cons_of_mem part hd)
    cases part with
    | between line hbetween =>
      rw [List.flatMap_cons, Part.lines, List.singleton_append, facts_between docs hbetween]
      exact ih hcut _ _
    | declaration d =>
      obtain ⟨hfirst, hcut⟩ := hcut
      obtain ⟨f, above', htold, hfacts⟩ :=
        facts_declaration docs (hascii d List.mem_cons_self) hfirst before above
      rw [List.flatMap_cons, Part.lines, hfacts]
      exact .cons htold (ih hcut _ _)

/-- A stop whose fact ends on the last line of the declaration uses up all lines of it, as long as
the numbers of lines have room in their words. -/
theorem Told.extra_eq {d : Declaration} {p : Stop} {f : Fact} (h : Told p.before d f)
    (hend : f.endLine = lineNumber (p.before + p.extra)) (hmore : d.more.length ≤ p.rest.length)
    (hsmall : p.before + p.rest.length + 1 < UInt32.size) : p.extra = d.more.length := by
  have hlength : d.lines.length = d.more.length + 1 := by simp [Declaration.lines]
  have hle : p.extra ≤ p.rest.length := p.extra_le
  have hnumber := congrArg UInt32.toNat (hend.symm.trans h.endLine)
  simp only [lineNumber] at hnumber
  rw [UInt32.toNat_ofNat_of_lt' (by omega), UInt32.toNat_ofNat_of_lt' (by omega)] at hnumber
  omega

/-- Where each declaration is told, each is cut where it ends, as long as the numbers of lines have
room in their words. -/
theorem areCut_of_told (docs : Bool) {parts : List Part}
    (hascii : ∀ d, Part.declaration d ∈ parts → d.heading.IsAscii) {before : Nat}
    (hsmall : before + (parts.flatMap Part.lines).length < UInt32.size) {above : List (List Char)}
    (htold : List.Forall₂ (fun p f => Told p.1 p.2 f) (placed before parts)
      ((stops before above false (parts.flatMap Part.lines)).filterMap (·.fact? docs))) :
    AreCut parts := by
  induction parts generalizing before above with
  | nil => exact trivial
  | cons part parts ih =>
    have ih := @ih fun d hd => hascii d (List.mem_cons_of_mem part hd)
    rw [List.flatMap_cons] at htold hsmall
    rw [List.length_append] at hsmall
    cases part with
    | between line hbetween =>
      rw [Part.lines, List.singleton_append, facts_between docs hbetween] at htold
      rw [Part.lines, List.length_singleton] at hsmall
      exact ih (by omega) htold
    | declaration d =>
      have hd := hascii d List.mem_cons_self
      rw [Part.lines] at htold hsmall
      let p : Stop := ⟨before, above, false, d.first.write,
        d.more.map (·.write) ++ parts.flatMap Part.lines⟩
      obtain ⟨f, hf, hend, -⟩ := d.exists_fact hd docs (p := p) rfl rfl
      have hfacts := filterMap_stops docs p
      rw [hf] at hfacts
      have hhead : Told before d f := by
        have hwhole : List.Forall₂ (fun p f => Told p.1 p.2 f)
          ((before, d) :: placed (before + d.lines.length) parts) _ := hfacts ▸ htold
        exact (List.forall₂_cons.1 hwhole).1
      have hlength : d.lines.length = d.more.length + 1 := by simp [Declaration.lines]
      have hrest : p.rest.length = d.more.length + (parts.flatMap Part.lines).length := by
        simp [p]
      have hroom : before + p.rest.length + 1 < UInt32.size := by omega
      have hextra : p.extra = d.more.length := Told.extra_eq hhead hend (by omega) hroom
      have hcut := (d.extra_eq_iff rfl).1 hextra
      refine ⟨hcut, ?_⟩
      obtain ⟨f', above', -, hfacts'⟩ := facts_declaration docs hd hcut before above
      rw [hfacts'] at htold
      exact ih (by omega) (List.forall₂_cons.1 htold).2

/-- Plain declarations are cut where they end. -/
theorem areCut_of_plain {parts : List Part} (h : ∀ d, Part.declaration d ∈ parts → d.IsPlain) :
    AreCut parts := by
  induction parts with
  | nil => exact trivial
  | cons part parts ih =>
    have ih := ih fun d hd => h d (List.mem_cons_of_mem part hd)
    cases part with
    | between line hbetween => exact ih
    | declaration d =>
      let p : Stop := ⟨0, [], false, d.first.write,
        d.more.map (·.write) ++ parts.flatMap Part.lines⟩
      have hextra : p.extra = d.more.length := (h d List.mem_cons_self).extraLines_lines _
      exact ⟨(d.extra_eq_iff rfl).1 hextra, ih⟩

/-- Over a file of functions and methods with ASCII names the survey tells of each of them, in their
order and of nothing else, and each ends on the line on which the brace of its body is closed,
exactly when the braces that it counts come out there, which they do when all literals are tame. A
file with more lines than their numbers have room for is left out of one direction. -/
theorem survey_declarations (docs : Bool) {source : String} {parts : List Part}
    (hlines : lines source.toList = parts.flatMap Part.lines)
    (hascii : ∀ d, Part.declaration d ∈ parts → d.heading.IsAscii) :
    (AreCut parts →
      List.Forall₂ (fun p f => Told p.1 p.2 f) (placed 0 parts) (survey docs source).facts) ∧
    ((lines source.toList).length < UInt32.size →
      List.Forall₂ (fun p f => Told p.1 p.2 f) (placed 0 parts) (survey docs source).facts →
      AreCut parts) ∧
    ((∀ d, Part.declaration d ∈ parts → d.IsPlain) → AreCut parts) := by
  rw [facts_survey, stopsOf, hlines]
  refine ⟨fun hcut => told_stops docs hascii hcut 0 [], fun hsmall htold => ?_, areCut_of_plain⟩
  exact areCut_of_told docs hascii (by omega) htold

namespace Compared

/-- Characters outside of literals. -/
def codes (s : List Char) (h : s.any isQuoteMark = false) : List Lexeme :=
  s.pmap Lexeme.code fun c hc => Bool.eq_false_iff.2 (List.any_eq_false.1 h c hc)

/-- A line without a comment, and with no slash that could begin one. -/
def line (lexemes : List Lexeme) (h : ∀ x ∈ lexemes, x.write ≠ ['/']) : Line where
  lexemes := lexemes
  comment := none
  apart := by
    have hpairs : lexemes.Pairwise Lexeme.Apart :=
      List.pairwise_of_forall_mem_list fun a ha _ _ heq => absurd heq (h a ha)
    simpa using hpairs.isChain

/-- Two functions, of which the first compares with the literal. -/
def source (l : Literal) : String :=
  "func first(s string) \x7b\n\tif s == " ++ String.ofList l.write ++ " \x7b\n\t\x7d\n\x7d\n\n" ++
    "func second() \x7b\n\x7d\n"

theorem write_ne_slash {s : List Char} (h : s.any isQuoteMark = false) (hs : '/' ∉ s) :
    ∀ x ∈ codes s h, x.write ≠ ['/'] := by
  intro x hx heq
  obtain ⟨c, hc, rfl⟩ := List.mem_pmap.1 hx
  exact hs ((List.cons.inj heq).1 ▸ hc)

def comparison (l : Literal) : Line :=
  line (codes "\tif s == ".toList (by decide) ++ .literal l :: codes " \x7b".toList (by decide)) <| by
    refine List.forall_mem_append.2 ⟨write_ne_slash _ (by decide), List.forall_mem_cons.2 ⟨?_, ?_⟩⟩
    · simp [Lexeme.write, Literal.write]
    · exact write_ne_slash _ (by decide)

def first (l : Literal) : Declaration where
  heading := .spaced none "first".toList (by decide +kernel) Heading.closed_none
  header := codes "func first(s string) ".toList (by decide)
  inner := []
  first := line (codes "func first(s string) \x7b".toList (by decide)) (by decide)
  more := [comparison l, line (codes "\t\x7d".toList (by decide)) (by decide),
    line (codes "\x7d".toList (by decide)) (by decide)]
  begins := by decide
  level := by decide
  opens := rfl
  closed := rfl

def second : Declaration where
  heading := .spaced none "second".toList (by decide +kernel) Heading.closed_none
  header := codes "func second() ".toList (by decide)
  inner := []
  first := line (codes "func second() \x7b".toList (by decide)) (by decide)
  more := [line (codes "\x7d".toList (by decide)) (by decide)]
  begins := by decide
  level := by decide
  opens := rfl
  closed := rfl

def parts (l : Literal) : List Part :=
  [.declaration (first l), .between [] isBetween_nil, .declaration second]

/-- A text of braces alone. -/
def tame : Literal := ⟨.text, ['\x7d', '\x7b', '\x7b'], by decide⟩

/-- A brace as a rune, the text of a quotation mark, and that of two slashes. -/
def wild : List Literal :=
  [⟨.rune, ['\x7b'], by decide⟩, ⟨.text, ['\\', '"'], by decide⟩, ⟨.text, ['/', '/'], by decide⟩]

end Compared

/-- Of the two functions both are told when the first compares with a text of braces. -/
theorem survey_declarations_of_tame_literal :
    lines (Compared.source Compared.tame).toList =
        (Compared.parts Compared.tame).flatMap Part.lines ∧
      (∀ d, Part.declaration d ∈ Compared.parts Compared.tame → d.IsPlain) ∧
      AreCut (Compared.parts Compared.tame) ∧
      List.Forall₂ (fun p f => Told p.1 p.2 f) (placed 0 (Compared.parts Compared.tame))
        (survey true (Compared.source Compared.tame)).facts := by
  have hlines : lines (Compared.source Compared.tame).toList =
      (Compared.parts Compared.tame).flatMap Part.lines := by
    decide +kernel
  have hplain : ∀ d, Part.declaration d ∈ Compared.parts Compared.tame → d.IsPlain := by
    intro d hd
    simp only [Compared.parts, List.mem_cons, Part.declaration.injEq, reduceCtorEq, List.not_mem_nil,
      or_false, false_or] at hd
    rcases hd with rfl | rfl
    · exact ⟨by decide +kernel, by decide +kernel⟩
    · exact ⟨by decide +kernel, by decide +kernel⟩
  obtain ⟨htold, hcut, hplainly⟩ :=
    survey_declarations true hlines fun d hd => (hplain d hd).isAscii
  exact ⟨hlines, hplain, hplainly hplain, htold (hplainly hplain)⟩

/-- With a brace as a rune the first function takes the second in; with a quotation mark or two
slashes in its literal it ends too early. -/
theorem not_told_of_wild_literal :
    (∀ l ∈ Compared.wild, lines (Compared.source l).toList = (Compared.parts l).flatMap Part.lines ∧
      (placed 0 (Compared.parts l)).map
          (fun p => (String.ofList p.2.heading.name, p.1 + 1, p.1 + p.2.lines.length)) =
        [("first", 1, 4), ("second", 6, 7)]) ∧
    Compared.wild.map (fun l => (survey true (Compared.source l)).facts.map
        fun f => (f.name, f.startLine, f.endLine)) =
      [[("first", 1, 7)], [("first", 1, 3), ("second", 6, 7)],
        [("first", 1, 3), ("second", 6, 7)]] := by
  exact ⟨by decide +kernel, by decide +kernel⟩

end CodeSurvey.Go
