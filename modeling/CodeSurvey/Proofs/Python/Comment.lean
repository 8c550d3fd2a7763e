-- A comment at the end of a line of a list in parentheses. In an import it changes
-- nothing. In the header of a function it is read as a part of the list: when its brackets
-- and quotes close in it, it changes the parameters of that function and its signature, and
-- nothing else; when they do not, the function may be lost.
import CodeSurvey.Proofs.Python.Block
import CodeSurvey.Proofs.Python.Header
import CodeSurvey.Proofs.Python.Line
import CodeSurvey.Proofs.Python.Pass

namespace CodeSurvey.Python

open Text

/-! ## A header with more text -/

variable {extra text params : List Char}

/-- The second reading has the text `extra` more than the first, where the texts that both collect
were `text` and `params`. -/
def Reading.Grown (extra text params : List Char) (r r' : Reading) : Prop :=
  ∃ x y, r.text.reverse = text ++ x ∧ r.params.reverse = params ++ y ∧
    r' = { r with
      text := (text ++ extra ++ x).reverse
      params := (params ++ extra ++ y).reverse }

/-- The same of two headers that have ended. -/
structure Header.Grown (extra text params : List Char) (h h' : Header) : Prop where
  text : ∃ x, h.text = text ++ x ∧ h'.text = text ++ extra ++ x
  params : h.params = none ∧ h'.params = none ∨
    ∃ y, h.params = some (params ++ y) ∧ h'.params = some (params ++ extra ++ y)
  tail : h'.tail = h.tail

/-- Both readings do the same. -/
inductive Step.Grown (extra text params : List Char) : Step → Step → Prop
  | more {r r' : Reading} :
      r.Grown extra text params r' → Grown extra text params (.more r) (.more r')
  | done {h h' : Header} :
      h.Grown extra text params h' → Grown extra text params (.done h) (.done h')
  | broken : Grown extra text params .broken .broken

namespace Step.Grown

theorem of_more {r : Reading} {step : Step} (h : Grown extra text params (.more r) step) :
    ∃ r', step = .more r' ∧ r.Grown extra text params r' := by
  cases h with
  | more hmore => exact ⟨_, rfl, hmore⟩

theorem of_done {header : Header} {step : Step} (h : Grown extra text params (.done header) step) :
    ∃ header', step = .done header' ∧ header.Grown extra text params header' := by
  cases h with
  | done hdone => exact ⟨_, rfl, hdone⟩

end Step.Grown

namespace Reading.Grown

variable {r r' : Reading}

theorem keep (h : r.Grown extra text params r') (c : Char) :
    (r.keep c).Grown extra text params (r'.keep c) := by
  obtain ⟨x, y, htext, hparams, rfl⟩ := h
  unfold Reading.keep
  cases r.place with
  | before => exact ⟨x ++ [c], y, by simp [htext], hparams, by simp⟩
  | inside => exact ⟨x ++ [c], y ++ [c], by simp [htext], by simp [hparams], by simp⟩
  | after => exact ⟨x ++ [c], y, by simp [htext], hparams, by simp⟩

theorem finish (h : r.Grown extra text params r') :
    r.finish.Grown extra text params r'.finish := by
  obtain ⟨x, y, htext, hparams, rfl⟩ := h
  refine ⟨⟨x, htext, by simp [Reading.finish]⟩, ?_, rfl⟩
  unfold Reading.finish
  dsimp only
  split
  · exact .inr ⟨y, by rw [hparams], by rw [List.reverse_reverse]⟩
  · exact .inl ⟨rfl, rfl⟩

/-- Brackets, quotes and the place may change in both alike. -/
theorem level (h : r.Grown extra text params r') (depth : Int) (quote : Option Char)
    (place : Place) :
    Reading.Grown extra text params { r with depth := depth, quote := quote, place := place }
      { r' with depth := depth, quote := quote, place := place } := by
  obtain ⟨x, y, htext, hparams, rfl⟩ := h
  exact ⟨x, y, htext, hparams, rfl⟩

/-- What a character does is decided by brackets, quotes and the place alone. -/
theorem next (h : r.Grown extra text params r') (c : Char) :
    Step.Grown extra text params (r.next c) (r'.next c) := by
  have hkeep := h.keep c
  have hfinish := h.finish
  have hlevel : r'.depth = r.depth ∧ r'.quote = r.quote ∧ r'.place = r.place := by
    obtain ⟨x, y, -, -, rfl⟩ := h
    exact ⟨rfl, rfl, rfl⟩
  have hclose : Reading.Grown extra text params
      { r with depth := 0, place := .after, text := c :: r.text }
      { r' with depth := 0, quote := r.quote, place := .after, text := c :: r'.text } := by
    obtain ⟨x, y, htext, hparams, rfl⟩ := h
    exact ⟨x ++ [c], y, by simp [htext], hparams, by simp⟩
  obtain ⟨hdepth, hquote, hplace⟩ := hlevel
  unfold Reading.next
  rw [hdepth, hquote, hplace]
  simp only [Reading.keep_depth, Reading.keep_quote, Reading.keep_place, hdepth, hquote, hplace]
  split
  · exact .more (hkeep.level _ _ _)
  split
  · exact .more (hkeep.level _ _ _)
  split
  · exact .broken
  split
  · exact .done hfinish
  split
  · exact .more (hkeep.level _ _ _)
  split
  · split
    · exact .more hclose
    · exact .more (hkeep.level _ _ _)
  · exact .more hkeep

theorem line (h : r.Grown extra text params r') (s : List Char) :
    Step.Grown extra text params (r.line s) (r'.line s) := by
  induction s generalizing r r' with
  | nil => exact .more h
  | cons c s ih =>
    have hnext := h.next c
    unfold Reading.line
    revert hnext
    generalize r.next c = step, r'.next c = step'
    rintro (hmore | hdone | _)
    · exact ih hmore
    · exact .done hdone
    · exact .broken

/-- The same lines end both headers. -/
theorem readOn (h : r.Grown extra text params r') {fuel : Nat} {lines : List (List Char)}
    {header : Header} {size : Nat} (hread : Python.readOn r fuel lines = some (header, size)) :
    ∃ header', Python.readOn r' fuel lines = some (header', size) ∧
      header.Grown extra text params header' := by
  induction fuel generalizing r r' lines size with
  | zero => cases hread
  | succ fuel ih =>
    cases lines with
    | nil => cases hread
    | cons line rest =>
      have hline := h.line line
      rcases readOn_cons_eq_some.1 hread with
        ⟨hdone, rfl⟩ | ⟨r₁, r₂, n, hmore, hnext, hbelow, rfl⟩
      · rw [hdone] at hline
        obtain ⟨header', hdone', hgrown⟩ := hline.of_done
        exact ⟨header', readOn_cons_eq_some.2 (.inl ⟨hdone', rfl⟩), hgrown⟩
      · rw [hmore] at hline
        obtain ⟨r₁', hmore', h₁⟩ := hline.of_more
        have hfeed := h₁.next '\n'
        rw [hnext] at hfeed
        obtain ⟨r₂', hnext', h₂⟩ := hfeed.of_more
        obtain ⟨header', hread', hgrown⟩ := ih h₂ hbelow
        exact ⟨header',
          readOn_cons_eq_some.2 (.inr ⟨r₁', r₂', n, hmore', hnext', hread', rfl⟩), hgrown⟩

end Reading.Grown

/-- Read over the lines, a header has come to a place in the parentheses, outside of quotes. -/
structure OpenAfter (lines : List (List Char)) (r : Reading) : Prop where
  read : Reading.start.line (['\n'].intercalate lines) = .more r
  place : r.place = .inside
  depth : 0 < r.depth
  quote : r.quote = none

theorem intercalate_longer (sep : List Char) (above : List (List Char)) (line more : List Char) :
    sep.intercalate (above ++ [line ++ more]) = sep.intercalate (above ++ [line]) ++ more := by
  induction above with
  | nil => simp
  | cons first above ih =>
    cases above with
    | nil => simp [List.intercalate_cons_cons]
    | cons second above =>
      simp only [List.cons_append] at ih ⊢
      rw [List.intercalate_cons_cons, List.intercalate_cons_cons, ih, List.append_assoc,
        List.append_assoc, List.append_assoc]

/-- A comment whose brackets and quotes close in it is a part of the list of parameters, and the
header has the same lines. -/
theorem readHeader_of_comment {above below : List (List Char)} {line comment : List Char}
    {r : Reading} {header : Header} {size : Nat} (hopen : OpenAfter (above ++ [line]) r)
    (hcomment : IsHeaderLevel comment)
    (hread : readHeader (above ++ line :: below) = some (header, size))
    (hin : above.length < size) :
    ∃ header', readHeader (above ++ (line ++ comment) :: below) = some (header', size) ∧
      header.Grown comment r.text.reverse r.params.reverse header' := by
  obtain ⟨hfirst, hplace, hdepth, hquote⟩ := hopen
  obtain ⟨-, -, hmax⟩ := readOn_size hread
  obtain ⟨r₁, hline, hgrown⟩ : ∃ r₁, r.line comment = .more r₁ ∧
      r.Grown comment r.text.reverse r.params.reverse r₁ :=
    ⟨_, Reading.line_inside hplace hdepth hquote hcomment, [], [], by simp, by simp, by simp⟩
  have hlonger :
      Reading.start.line (['\n'].intercalate (above ++ [line ++ comment])) = .more r₁ := by
    rw [intercalate_longer, Reading.line_append_of_more hfirst, hline]
  have hsplit : ∀ last, above ++ last :: below = (above ++ [last]) ++ below := fun last =>
    List.append_cons above last below
  have hlength : ∀ last : List Char, (above ++ [last]).length = above.length + 1 := fun last =>
    List.length_append
  obtain ⟨fuel, hfuel⟩ : ∃ fuel, maxHeaderLines = above.length + 1 + fuel :=
    ⟨_, (Nat.add_sub_of_le (Nat.le_trans hin hmax)).symm⟩
  rw [readHeader, hsplit, hfuel, ← hlength line] at hread
  obtain ⟨r₂, n, hnext, hbelow, rfl⟩ := (readOn_append_eq_some (by simp) hfirst).1 hread
  have hfeed := hgrown.next '\n'
  rw [hnext] at hfeed
  obtain ⟨r₂', hnext', h₂⟩ := hfeed.of_more
  obtain ⟨header', hread', hheader⟩ := h₂.readOn hbelow
  refine ⟨header', ?_, hheader⟩
  rw [readHeader, hsplit, hfuel, ← hlength (line ++ comment)]
  exact (readOn_append_eq_some (by simp) hlonger).2
    ⟨r₂', n, hnext', hread', by rw [hlength, hlength]⟩

/-- It is told of the declaration, with the text `extra` more in its header. -/
def Declaration.ToldWith (d : Declaration) (extra text params : List Char) (told : FileFacts) :
    Prop :=
  ∃ header, d.header.Grown extra text params header ∧ told = { d with header := header }.tell

/-! ## A longer line -/

/-- The second stop is the first when one of its lines, after `above`, has more at its end. -/
structure Stop.Longer (above : List (List Char)) (line more : List Char) (below : List (List Char))
    (p p' : Stop) : Prop where
  before : p'.before = p.before
  scopes : p'.scopes = p.scopes
  lines : p.line :: p.rest = above ++ line :: below
  longer : p'.line :: p'.rest = above ++ (line ++ more) :: below

/-- A list that needs none of the lines from one on is closed before it. -/
theorem isClosed_of_used {names : List Char} {above : List (List Char)} {line : List Char}
    {below : List (List Char)} (h : (namesOver names (above ++ line :: below)).2 ≤ above.length) :
    IsClosed names above := by
  intro hstart
  by_contra hopen
  rw [not_or] at hopen
  obtain ⟨hnames, hlines⟩ := hopen
  unfold namesOver at h
  rw [if_pos (by simp [hstart, hnames])] at h
  have hall : ∀ l ∈ above, (!(Text.before ['#'] l).contains ')') = true := fun l hl => by
    simpa using fun hmem => hlines ⟨l, hl, hmem⟩
  dsimp only at h
  rw [List.takeWhile_append_of_pos hall, List.length_take, List.length_append, List.length_append,
    List.length_cons] at h
  omega

namespace Stop.Longer

variable {above below : List (List Char)} {line more : List Char} {p p' : Stop}

/-- A stop that does not use up the longer line scans what it scanned. -/
theorem scan_eq (h : p.Longer above line more below p') (hblank : allBlank line = false)
    (hused : p.used < above.length)
    (hends : ∀ declared, p.kind = .declaration declared → p.header?.isSome = true) :
    p'.scan false = p.scan false := by
  obtain ⟨before, scopes, first, rest⟩ := p
  obtain ⟨before', scopes', first', rest'⟩ := p'
  obtain ⟨hbefore, hscopes, hlines, hlonger⟩ := h
  dsimp only at hbefore hscopes hlines hlonger
  subst hbefore hscopes
  cases above with
  | nil => cases hused
  | cons first'' above =>
    obtain ⟨rfl, rfl⟩ := List.cons.inj hlines
    obtain ⟨rfl, rfl⟩ := List.cons.inj hlonger
    have hused := Nat.le_of_lt_succ hused
    let p : Stop := ⟨before', scopes', first', above ++ line :: below⟩
    let p' : Stop := ⟨before', scopes', first', above ++ (line ++ more) :: below⟩
    change p'.scan false = p.scan false
    change p.used ≤ above.length at hused
    cases hkind : p.kind with
    | decorator => rw [Stop.scan_decorator hkind, Stop.scan_decorator (p := p') hkind]
    | modules list => rw [Stop.scan_modules hkind, Stop.scan_modules (p := p') hkind]
    | other => rw [Stop.scan_other hkind, Stop.scan_other (p := p') hkind]
    | fromModule source names =>
      have hscan : p.scan false = _ := Stop.scan_fromModule hkind
      have hclosed : IsClosed names above := isClosed_of_used (by
        rw [Stop.used, hscan] at hused
        exact hused)
      have hnames : namesOver names p'.rest = namesOver names p.rest :=
        (namesOver_append hclosed _).trans (namesOver_append hclosed _).symm
      rw [hscan, Stop.scan_fromModule (p := p') hkind, hnames]
    | declaration declared =>
      obtain ⟨⟨header, size⟩, hheader⟩ := Option.isSome_iff_exists.1 (hends declared hkind)
      have hscan : p.scan false = _ := Stop.scan_declaration hkind hheader
      have hsize : size - 1 ≤ above.length := by
        rw [Stop.used, hscan] at hused
        exact hused
      have hheader' : p'.header? = some (header, size) :=
        readHeader_of_front (show readHeader (first' :: above ++ line :: below) = _ from hheader)
          (Nat.sub_le_iff_le_add.1 hsize) ((line ++ more) :: below)
      have hblock : (blockOf p'.indent (p'.rest.drop (size - 1))).length =
          (blockOf p.indent (p.rest.drop (size - 1))).length := by
        change (blockOf _ ((above ++ _ :: below).drop _)).length =
          (blockOf _ ((above ++ _ :: below).drop _)).length
        rw [List.drop_append_of_le_length hsize, List.drop_append_of_le_length hsize]
        exact length_blockOf_longer hblank more _ _ _
      have hsame : p'.declaration false declared header size =
          p.declaration false declared header size := by
        simp only [Stop.declaration, hblock]
        rfl
      rw [hscan, Stop.scan_declaration (p := p') hkind hheader', hsame]
      rfl

/-- The lines after the longer one are the same. -/
theorem drop_rest (h : p.Longer above line more below p') {k : Nat} (hk : above.length ≤ k) :
    p'.rest.drop k = p.rest.drop k := by
  have hcons : ∀ q : Stop, q.rest.drop k = (q.line :: q.rest).drop (k + 1) := fun q => rfl
  have hdrop : ∀ last, (above ++ last :: below).drop (k + 1) = below.drop (k - above.length) := by
    intro last
    rw [List.drop_append, List.drop_eq_nil_of_le (Nat.le_succ_of_le hk), List.nil_append,
      Nat.succ_sub hk, List.drop_succ_cons]
  rw [hcons, hcons, h.lines, h.longer, hdrop, hdrop]

/-- The line of the stop itself may be the longer one. -/
theorem line_eq (h : p.Longer above line more below p') :
    p'.line = p.line ∨ p.line = line ∧ p'.line = line ++ more := by
  obtain ⟨-, -, hlines, hlonger⟩ := h
  cases above with
  | nil => exact .inr ⟨(List.cons.inj hlines).1, (List.cons.inj hlonger).1⟩
  | cons first above => exact .inl ((List.cons.inj hlonger).1.trans (List.cons.inj hlines).1.symm)

/-- A function goes on as the same function, with more in its header. -/
theorem scan_function (h : p.Longer above line more below p') (hblank : allBlank line = false)
    {name : List Char} {isAsync : Bool} {header : Header} {size : Nat} {r : Reading}
    (hkind : p.kind = .declaration (.function name isAsync))
    (hheader : p.header? = some (header, size)) (hin : above.length < size)
    (hopen : OpenAfter (above ++ [line]) r) (hlevel : IsHeaderLevel more) :
    p'.used = p.used ∧ p'.inner = p.inner ∧
      (p.declaration false (.function name isAsync) header size).ToldWith more r.text.reverse
        r.params.reverse (p'.tell false) := by
  have hkind' : p'.kind = .declaration (.function name isAsync) := by
    rcases h.line_eq with heq | ⟨heq, heq'⟩
    · rw [Stop.kind, heq, ← Stop.kind, hkind]
    · rw [Stop.kind, heq] at hkind
      rw [Stop.kind, heq',
        lineKind_of_function? (function?_append (function?_of_lineKind hkind) more)]
  have hindent : p'.indent = p.indent := by
    rcases h.line_eq with heq | ⟨heq, heq'⟩
    · rw [Stop.indent, heq, Stop.indent]
    · rw [Stop.indent, heq', Stop.indent, heq, indentOf_append hblank]
  rw [Stop.header?, h.lines] at hheader
  obtain ⟨header', hheader', hgrown⟩ := readHeader_of_comment hopen hlevel hheader hin
  rw [← h.longer] at hheader'
  rw [← h.lines] at hheader
  have hafter := h.drop_rest (k := size - 1) (Nat.le_sub_one_of_lt hin)
  have houter : p'.outer = p.outer := by
    rw [Stop.outer, Stop.outer, hindent, h.before, h.scopes]
  have hdeclaration : p'.declaration false (.function name isAsync) header' size =
      { p.declaration false (.function name isAsync) header size with header := header' } := by
    simp only [Stop.declaration, hindent, hafter, houter, h.before]
  have hscan : p.scan false = _ := Stop.scan_declaration hkind hheader
  have hscan' : p'.scan false = _ := Stop.scan_declaration hkind' hheader'
  rw [hdeclaration, hindent, houter] at hscan'
  refine ⟨?_, ?_, header', hgrown, ?_⟩
  · rw [Stop.used, hscan', Stop.used, hscan]
  · rw [Stop.inner, hscan', Stop.inner, hscan]
    rfl
  · rw [Stop.tell, hscan']

end Stop.Longer

/-! ## A comment in the list of an import -/

/-- What a line adds to the list of an import: its text without its comment, and whether that
closes the list. -/
def listPart (line : List Char) : List Char × Bool :=
  (trim (Text.before ['#'] line), (Text.before ['#'] line).contains ')')

theorem namesOver_eq (names : List Char) (rest : List (List Char)) : namesOver names rest =
    if startsWith ['('] names && !names.contains ')' then
      let parts := rest.map listPart
      let used := parts.take ((parts.takeWhile (!·.2)).length + 1)
      (names ++ used.flatMap (' ' :: ·.1), used.length)
    else (names, 0) := by
  unfold namesOver
  split
  · dsimp only
    rw [List.takeWhile_map, List.length_map, ← List.map_take, List.flatMap_map, List.length_map]
    rfl
  · rfl

/-- The text of a comment at the end of a line. -/
def commentText (comment : List Char) : List Char := ' ' :: '#' :: ' ' :: comment

theorem listPart_comment (line comment : List Char) :
    listPart (line ++ commentText comment) = listPart line := by
  have hbefore : ∃ back, allBlank back = true ∧
      Text.before ['#'] (line ++ commentText comment) = Text.before ['#'] line ++ back := by
    rw [before_singleton, before_singleton, List.takeWhile_append]
    split
    · rename_i hlength
      have hwhole := (List.takeWhile_prefix fun d => !('#' == d)).eq_of_length hlength
      exact ⟨[' '], rfl, by rw [hwhole]; rfl⟩
    · exact ⟨[], rfl, by rw [List.append_nil]⟩
  obtain ⟨back, hback, heq⟩ := hbefore
  have hclose : back.contains ')' = false := by
    by_contra hmem
    have hmem : ')' ∈ back := by simpa using hmem
    exact absurd (allBlank_iff.1 hback _ hmem) (by decide)
  rw [listPart, heq, trim_append_blank hback, List.contains_append, hclose, Bool.or_false, listPart]

/-- A comment on a line of the list changes nothing. -/
theorem Stop.Longer.scan_import {above below : List (List Char)} {line comment : List Char}
    {p p' : Stop} (h : p.Longer above line (commentText comment) below p') (hbelow : above ≠ [])
    (docs : Bool) {source names : List Char} (hkind : p.kind = .fromModule source names) :
    p'.scan docs = p.scan docs := by
  obtain ⟨hbefore, hscopes, hlines, hlonger⟩ := h
  obtain ⟨first, above, rfl⟩ := List.exists_cons_of_ne_nil hbelow
  rw [List.cons_append, List.cons.injEq] at hlines hlonger
  have hkind' : p'.kind = .fromModule source names := by
    rw [Stop.kind, hlonger.1, ← hlines.1, ← Stop.kind, hkind]
  have hnames : namesOver names p'.rest = namesOver names p.rest := by
    rw [namesOver_eq, namesOver_eq, hlines.2, hlonger.2, List.map_append, List.map_append,
      List.map_cons, List.map_cons, listPart_comment]
  rw [Stop.scan_fromModule hkind', Stop.scan_fromModule hkind, hnames, hbefore, hscopes]

/-! ## The pass -/

/-- When a line that a stop uses up gets longer and the stop uses up the same lines, only what that
stop tells may change. -/
theorem tells_longer {line more : List Char} (hblank : allBlank line = false)
    {below : List (List Char)} {p : Stop} {R : FileFacts → Prop} {before : Nat}
    {scopes : List Scope} {lines above : List (List Char)} (hlines : lines = above ++ line :: below)
    (hp : p ∈ stops before scopes lines) (hfrom : p.before ≤ before + above.length)
    (hto : before + above.length ≤ p.before + p.used)
    (hends : ∀ q ∈ stops before scopes lines, q.before < p.before →
      ∀ declared, q.kind = .declaration declared → q.header?.isSome = true)
    (hstop : ∀ mid p', p.before + mid.length = before + above.length →
      p.Longer mid line more below p' → p'.used = p.used ∧ p'.inner = p.inner ∧ R (p'.tell false)) :
    ∃ earlier later told,
      (stops before scopes lines).map (·.tell false) = earlier ++ p.tell false :: later ∧
      (stops before scopes (above ++ (line ++ more) :: below)).map (·.tell false) =
        earlier ++ told :: later ∧ R told := by
  fun_induction stops before scopes lines generalizing above with
  | case1 => cases hp
  | case2 before scopes first rest q =>
    rename_i ih
    obtain ⟨first', rest', hlonger⟩ := List.exists_cons_of_ne_nil
      (List.append_ne_nil_of_right_ne_nil above (List.cons_ne_nil (line ++ more) below))
    let q' : Stop := ⟨before, scopes, first', rest'⟩
    have hq : q.Longer above line more below q' := ⟨rfl, rfl, hlines, hlonger.symm⟩
    have hcons : (stops before scopes (first' :: rest')).map (·.tell false) = q'.tell false ::
      (stops (before + 1 + q'.used) q'.inner (rest'.drop q'.used)).map (·.tell false) :=
      tells_cons false q'
    rcases List.mem_cons.1 hp with rfl | hp
    · obtain ⟨hused, hinner, htold⟩ := hstop above q' rfl hq
      have hdrop : rest'.drop q.used = rest.drop q.used :=
        hq.drop_rest (Nat.le_of_add_le_add_left hto)
      refine ⟨[], _, q'.tell false, rfl, ?_, htold⟩
      rw [hlonger, hcons, hused, hinner, hdrop, List.nil_append]
    · obtain ⟨k, hk, -⟩ := drop_of_mem_stops hp
      have hbefore : q.before < p.before := by
        change before < p.before
        omega
      have hshort : q.used < above.length := by omega
      have hscan := hq.scan_eq hblank hshort fun declared hkind =>
        hends q List.mem_cons_self hbefore declared hkind
      have hused : q'.used = q.used := congrArg (·.2.1) hscan
      have hinner : q'.inner = q.inner := congrArg (·.2.2) hscan
      have htell : q'.tell false = q.tell false := congrArg (·.1) hscan
      cases above with
      | nil => cases hshort
      | cons first'' above =>
        obtain ⟨-, hrest⟩ := List.cons.inj hlines
        obtain ⟨-, hrest'⟩ := List.cons.inj hlonger
        have hle : q.used ≤ above.length := Nat.le_of_lt_succ hshort
        have hdrop : ∀ last, (above ++ last :: below).drop q.used =
            above.drop q.used ++ last :: below := fun last => List.drop_append_of_le_length hle
        have hlength : before + 1 + q.used + (above.drop q.used).length =
            before + (first'' :: above).length := by
          rw [List.length_drop, List.length_cons]
          omega
        have hbelow : rest.drop q.used = above.drop q.used ++ line :: below := by
          rw [hrest]
          exact hdrop line
        obtain ⟨earlier, later, told, hold, hnew, htold⟩ := ih hbelow hp
          (by rw [hlength]; exact hfrom)
          (by rw [hlength]; exact hto)
          (fun o ho => hends o (List.mem_cons_of_mem q ho))
          (fun mid p' hmid => hstop mid p' (hmid.trans hlength))
        refine ⟨q.tell false :: earlier, later, told, by rw [List.map_cons, hold]; rfl, ?_, htold⟩
        have hafter : rest'.drop q.used = above.drop q.used ++ (line ++ more) :: below := by
          rw [← hrest']
          exact hdrop (line ++ more)
        rw [hlonger, hcons, hused, hinner, htell, hafter, hnew, List.cons_append]

/-! ## Comment strings aside -/

theorem withoutDocs_tell (docs : Bool) (p : Stop) : (p.tell docs).withoutDocs = p.tell false := by
  cases h : p.kind with
  | decorator => rw [Stop.tell, Stop.tell, Stop.scan_decorator h, Stop.scan_decorator h]; rfl
  | fromModule source names =>
    rw [Stop.tell, Stop.tell, Stop.scan_fromModule h, Stop.scan_fromModule h]; rfl
  | modules list => rw [Stop.tell, Stop.tell, Stop.scan_modules h, Stop.scan_modules h]; rfl
  | other => rw [Stop.tell, Stop.tell, Stop.scan_other h, Stop.scan_other h]; rfl
  | declaration declared =>
    cases hheader : p.header? with
    | none =>
      rw [Stop.tell, Stop.tell, Stop.scan_unfinished h hheader, Stop.scan_unfinished h hheader]; rfl
    | some found =>
      rw [Stop.tell, Stop.tell, Stop.scan_declaration h hheader, Stop.scan_declaration h hheader]
      cases declared <;> rfl

/-- Whether comment strings are read is seen in them alone. -/
theorem withoutDocs_survey (docs : Bool) (source : String) :
    (survey docs source).withoutDocs = survey false source := by
  rw [survey_eq, survey_eq, FileFacts.withoutDocs_concat, List.map_map]
  exact congrArg FileFacts.concat (List.map_congr_left fun p _ => withoutDocs_tell docs p)

/-- Another header of a function shows in the signature and the parameters. -/
theorem whole_of_header {d : Declaration} {name : List Char} {isAsync : Bool}
    (h : d.declared = .function name isAsync) {header : Header}
    (htail : header.tail = d.header.tail) :
    { d with header := header }.whole =
      { d.whole with
        signature := String.ofList (singleSpaced header.text)
        parameters := some (parametersOf (d.whole.kind = .method) (header.params.getD [])) } := by
  rw [Declaration.isMethod_whole h]
  unfold Declaration.whole
  dsimp only
  rw [h, htail]
  rfl

/-! ## A comment on a line -/

/-- Both files tell the same, but that one fact has another signature and other parameters. -/
structure DifferInList (told told' : FileFacts) (f : Fact) (signature : String)
    (parameters : List Parameter) : Prop where
  facts : ∃ earlier later, told.facts = earlier ++ f :: later ∧
    told'.facts =
      earlier ++ { f with signature := signature, parameters := some parameters } :: later
  imports : told'.imports = told.imports
  exports : told'.exports = told.exports

theorem tell_of_header (d : Declaration) (header : Header) :
    { d with header := header }.tell.imports = d.tell.imports ∧
      { d with header := header }.tell.exports = d.tell.exports := by
  unfold Declaration.tell
  cases d.declared <;> exact ⟨rfl, rfl⟩

/-- Another header of one function makes no other difference. -/
theorem differInList_of_header {source source' : String} {earlier later : List FileFacts}
    {d : Declaration} {header : Header} {name : List Char} {isAsync : Bool}
    (hdeclared : d.declared = .function name isAsync) (htail : header.tail = d.header.tail)
    (hold : (stopsOf source).map (·.tell false) = earlier ++ d.tell :: later)
    (hnew : (stopsOf source').map (·.tell false) =
      earlier ++ { d with header := header }.tell :: later) :
    DifferInList (survey false source) (survey false source') d.whole
      (String.ofList (singleSpaced header.text))
      (parametersOf (d.whole.kind = .method) (header.params.getD [])) := by
  rw [survey_eq, survey_eq, hold, hnew]
  refine ⟨⟨earlier.flatMap (·.facts), later.flatMap (·.facts), ?_, ?_⟩, ?_, ?_⟩
  · simp only [FileFacts.concat, List.flatMap_append, List.flatMap_cons, Declaration.facts_tell,
      List.singleton_append]
  · simp only [FileFacts.concat, List.flatMap_append, List.flatMap_cons, Declaration.facts_tell,
      List.singleton_append, whole_of_header hdeclared htail]
  · simp only [FileFacts.concat, List.flatMap_append, List.flatMap_cons,
      (tell_of_header d header).1]
  · simp only [FileFacts.concat, List.flatMap_append, List.flatMap_cons,
      (tell_of_header d header).2]

section OnALine

variable {source commented : String} {above below : List (List Char)} {line comment : List Char}
  {p : Stop}

theorem survey_of_import (hlines : lines source.toList = above ++ line :: below)
    (hcommented : lines commented.toList = above ++ (line ++ commentText comment) :: below)
    (hblank : allBlank line = false) (hp : p ∈ stopsOf source)
    (hends : ∀ q ∈ stopsOf source, q.before < p.before →
      ∀ declared, q.kind = .declaration declared → q.header?.isSome = true)
    {module names : List Char} (hkind : p.kind = .fromModule module names)
    (hfrom : p.before < above.length) (hto : above.length ≤ p.before + p.used) :
    survey false commented = survey false source := by
  have hstop : ∀ mid p', p.before + mid.length = 0 + above.length →
      p.Longer mid line (commentText comment) below p' →
      p'.used = p.used ∧ p'.inner = p.inner ∧ p'.tell false = p.tell false := by
    intro mid p' hlength hlonger
    have hne : mid ≠ [] := fun hnil => by
      rw [hnil, List.length_nil] at hlength
      omega
    have hscan := hlonger.scan_import hne false hkind
    exact ⟨congrArg (·.2.1) hscan, congrArg (·.2.2) hscan, congrArg (·.1) hscan⟩
  obtain ⟨earlier, later, told, hold, hnew, rfl⟩ := tells_longer (R := (· = p.tell false)) hblank
    hlines hp (by omega) (by omega) hends hstop
  rw [survey_eq, survey_eq, stopsOf, stopsOf, hcommented, hold, hnew]

theorem survey_of_header (hlines : lines source.toList = above ++ line :: below)
    (hcommented : lines commented.toList = above ++ (line ++ commentText comment) :: below)
    (hblank : allBlank line = false) (hp : p ∈ stopsOf source)
    (hends : ∀ q ∈ stopsOf source, q.before < p.before →
      ∀ declared, q.kind = .declaration declared → q.header?.isSome = true)
    {name : List Char} {isAsync : Bool} {header : Header} {list : List Char} {size : Nat}
    {r : Reading} (hkind : p.kind = .declaration (.function name isAsync))
    (hheader : p.header? = some (header, size)) (hlist : header.params = some list)
    (hfrom : p.before ≤ above.length) (hto : above.length < p.before + size)
    (hopen : OpenAfter ((above ++ [line]).drop p.before) r) (hcomment : IsHeaderLevel comment) :
    ∃ f x y, header.text = r.text.reverse ++ x ∧ list = r.params.reverse ++ y ∧
      f.startLine = lineNumber p.before ∧
      f.parameters = some (parametersOf (f.kind = .method) list) ∧
      DifferInList (survey false source) (survey false commented) f
        (String.ofList (singleSpaced (r.text.reverse ++ commentText comment ++ x)))
        (parametersOf (f.kind = .method) (r.params.reverse ++ commentText comment ++ y)) := by
  let d := p.declaration false (.function name isAsync) header size
  have hlevel : IsHeaderLevel (commentText comment) :=
    (show IsHeaderLevel [' ', '#', ' '] by decide).append hcomment
  have hscan : p.scan false = _ := Stop.scan_declaration hkind hheader
  have hused : p.used = size - 1 := congrArg (·.2.1) hscan
  have hstop : ∀ mid p', p.before + mid.length = 0 + above.length →
      p.Longer mid line (commentText comment) below p' →
      p'.used = p.used ∧ p'.inner = p.inner ∧
        d.ToldWith (commentText comment) r.text.reverse r.params.reverse (p'.tell false) := by
    intro mid p' hlength hlonger
    have hdrop := drop_of_mem_stopsOf hp
    rw [hlines, List.drop_append_of_le_length hfrom, hlonger.lines] at hdrop
    obtain ⟨rfl, -⟩ := List.append_inj hdrop (by rw [List.length_drop]; omega)
    rw [List.drop_append_of_le_length hfrom] at hopen
    exact hlonger.scan_function hblank hkind hheader (by omega) hopen hlevel
  obtain ⟨earlier, later, _, hold, hnew, header', ⟨⟨x, hx, hx'⟩, hparams, htail⟩, rfl⟩ :=
    tells_longer hblank hlines hp (by omega) (by omega) hends hstop
  obtain ⟨y, hy, hy'⟩ := hparams.resolve_left fun hnone =>
    Option.some_ne_none list (hlist.symm.trans hnone.1)
  have hparameters := Declaration.parameters_whole (d := d) rfl
  rw [show p.tell false = d.tell from congrArg (·.1) hscan] at hold
  rw [← hcommented] at hnew
  have hdiffer := differInList_of_header (d := d) rfl htail hold hnew
  rw [hx', hy', Option.getD_some] at hdiffer
  rw [show d.header = header from rfl, hlist, Option.getD_some] at hparameters
  exact ⟨d.whole, x, y, hx, Option.some.inj (hlist.symm.trans hy), d.startLine_whole, hparameters,
    hdiffer⟩

/-- On a line of a list of imports a comment changes nothing but perhaps comment strings. On a line
that ends in the parentheses of a function, a comment whose brackets and quotes close in it is read
as a part of the list of parameters, and changes nothing else. -/
theorem survey_comment (docs : Bool) (hlines : lines source.toList = above ++ line :: below)
    (hcommented : lines commented.toList = above ++ (line ++ commentText comment) :: below)
    (hblank : allBlank line = false) (hp : p ∈ stopsOf source)
    (hends : ∀ q ∈ stopsOf source, q.before < p.before →
      ∀ declared, q.kind = .declaration declared → q.header?.isSome = true) :
    (∀ module names, p.kind = .fromModule module names → p.before < above.length →
      above.length ≤ p.before + p.used →
      (survey docs commented).withoutDocs = (survey docs source).withoutDocs) ∧
    ∀ name isAsync header list size r, p.kind = .declaration (.function name isAsync) →
      p.header? = some (header, size) → header.params = some list → p.before ≤ above.length →
      above.length < p.before + size → OpenAfter ((above ++ [line]).drop p.before) r →
      IsHeaderLevel comment →
      ∃ f x y, header.text = r.text.reverse ++ x ∧ list = r.params.reverse ++ y ∧
        f.startLine = lineNumber p.before ∧
        f.parameters = some (parametersOf (f.kind = .method) list) ∧
        DifferInList (survey docs source).withoutDocs (survey docs commented).withoutDocs f
          (String.ofList (singleSpaced (r.text.reverse ++ commentText comment ++ x)))
          (parametersOf (f.kind = .method) (r.params.reverse ++ commentText comment ++ y)) := by
  rw [withoutDocs_survey, withoutDocs_survey]
  exact ⟨fun _ _ hkind hfrom hto =>
      survey_of_import hlines hcommented hblank hp hends hkind hfrom hto,
    fun _ _ _ _ _ _ hkind hheader hlist hfrom hto hopen hcomment =>
      survey_of_header hlines hcommented hblank hp hends hkind hheader hlist hfrom hto hopen
        hcomment⟩

end OnALine

namespace Remark

/-- An import over three lines and a function over four, with room for a comment in each list. -/
def source (onName onParameter : String) : String :=
  "from m import (\n    a" ++ onName ++ "\n)\ndef f(\n    a," ++ onParameter ++
    "\n    b,\n):\n    pass\n"

def before : List (List Char) := ["from m import (".toList]

def after : List (List Char) :=
  [")".toList, "def f(".toList, "    a,".toList, "    b,".toList, "):".toList, "    pass".toList]

def above : List (List Char) :=
  ["from m import (".toList, "    a".toList, ")".toList, "def f(".toList]

def below : List (List Char) := ["    b,".toList, "):".toList, "    pass".toList]

def header : Header :=
  ⟨"def f(\n    a,\n    b,\n)".toList, some "\n    a,\n    b,\n".toList, []⟩

/-- The reading of the header after its second line. -/
def reading : Reading :=
  ⟨1, none, .inside, "def f(\n    a,".toList.reverse, "\n    a,".toList.reverse, []⟩

end Remark

/-- A comment with a quote and a bracket in the list of an import, and one without them in that of
a function. -/
theorem survey_comment_of_remark :
    (survey true (Remark.source " # it's )" "")).withoutDocs =
        (survey true (Remark.source "" "")).withoutDocs ∧
      ∃ f x y, Remark.header.text = Remark.reading.text.reverse ++ x ∧
        "\n    a,\n    b,\n".toList = Remark.reading.params.reverse ++ y ∧
        f.startLine = 4 ∧
        f.parameters =
          some (parametersOf (f.kind = .method) "\n    a,\n    b,\n".toList) ∧
        DifferInList (survey true (Remark.source "" "")).withoutDocs
          (survey true (Remark.source "" " # first")).withoutDocs f
          (String.ofList (singleSpaced
            (Remark.reading.text.reverse ++ commentText "first".toList ++ x)))
          (parametersOf (f.kind = .method)
            (Remark.reading.params.reverse ++ commentText "first".toList ++ y)) := by
  have hends : ∀ q ∈ stopsOf (Remark.source "" ""), q.Ends := by decide +kernel
  obtain ⟨i, hi, hbefore, hused, hkind⟩ : ∃ p ∈ stopsOf (Remark.source "" ""), p.before = 0 ∧
      p.used = 2 ∧ p.kind = .fromModule ['m'] ['('] := by decide +kernel
  obtain ⟨p, hp, hplace, hfunction, hheader⟩ : ∃ p ∈ stopsOf (Remark.source "" ""), p.before = 3 ∧
      p.kind = .declaration (.function ['f'] false) ∧ p.header? = some (Remark.header, 4) := by
    decide +kernel
  have hname : lines (Remark.source "" "").toList =
      Remark.before ++ "    a".toList :: Remark.after := by decide +kernel
  have hname' : lines (Remark.source " # it's )" "").toList =
      Remark.before ++ ("    a".toList ++ commentText "it's )".toList) :: Remark.after := by
    decide +kernel
  have hparameter : lines (Remark.source "" "").toList =
      Remark.above ++ "    a,".toList :: Remark.below := by decide +kernel
  have hparameter' : lines (Remark.source "" " # first").toList =
      Remark.above ++ ("    a,".toList ++ commentText "first".toList) :: Remark.below := by
    decide +kernel
  constructor
  · obtain ⟨himport, -⟩ := survey_comment true hname hname' (by decide +kernel) hi
      fun q hq _ => (hends q hq).header
    exact himport _ _ hkind (by rw [hbefore]; decide) (by rw [hbefore, hused]; decide)
  · obtain ⟨-, hlist⟩ := survey_comment true hparameter hparameter' (by decide +kernel) hp
      fun q hq _ => (hends q hq).header
    have hopen : OpenAfter ((Remark.above ++ ["    a,".toList]).drop p.before) Remark.reading := by
      rw [hplace]
      exact ⟨by decide +kernel, rfl, by decide, rfl⟩
    have hline : lineNumber p.before = 4 := by rw [hplace]; rfl
    rw [← hline]
    exact hlist _ _ _ _ _ _ hfunction hheader rfl (by rw [hplace]; decide) (by rw [hplace]; decide)
      hopen (by decide +kernel)

/-- Where a comment is taken for a part of the list, the next parameter has it in its name; and a
quote in it that no other closes takes the rest of the header with it, so that the function is
lost. -/
theorem comment_is_read_as_parameter :
    lines (Remark.source "" "").toList = Remark.above ++ "    a,".toList :: Remark.below ∧
      lines (Remark.source "" " # first").toList =
        Remark.above ++ ("    a,".toList ++ commentText "first".toList) :: Remark.below ∧
      lines (Remark.source "" " # don't").toList =
        Remark.above ++ ("    a,".toList ++ commentText "don't".toList) :: Remark.below ∧
      OpenAfter ((Remark.above ++ ["    a,".toList]).drop 3) Remark.reading ∧
      (survey true (Remark.source "" "")).facts.map (fun f => (f.name, f.parameters)) =
        [("f", some [.called "a", .called "b"])] ∧
      (survey true (Remark.source "" " # first")).facts.map (fun f => (f.name, f.parameters)) =
        [("f", some [.called "a", .called "# first\n    b"])] ∧
      (survey true (Remark.source "" " # don't")).facts = [] := by
  have hopen : OpenAfter ((Remark.above ++ ["    a,".toList]).drop 3) Remark.reading :=
    ⟨by decide +kernel, rfl, by decide, rfl⟩
  exact ⟨by decide +kernel, by decide +kernel, by decide +kernel, hopen, by decide +kernel,
    by decide +kernel, by decide +kernel⟩

end CodeSurvey.Python
