-- The first lines of a function as they are written: its name, a list of parameters
-- over as many lines as a header may have, and perhaps a result. The survey has one fact
-- for it, with what is written, when its name is an ASCII name, and none when it is not.
import CodeSurvey.Proofs.Python.Line
import CodeSurvey.Proofs.Python.Parameters
import CodeSurvey.Proofs.Python.Pass
import CodeSurvey.Proofs.Text.Lines

namespace CodeSurvey.Python

open Text

/-! ## Written headers -/

/-- The text of a result, which no mark outside ends before the header. -/
structure Result where
  text : List Char
  ne_nil : text ≠ []
  spaced : singleSpaced text = text
  bare : IsBareType text
  level : IsHeaderLevel text
  colon : ¬StandsOutside HeaderLevel.next? .outside ':' text
  hash : ¬StandsOutside HeaderLevel.next? .outside '#' text

/-- The first lines of a function. Its name may have characters of any script. -/
structure Heading where
  indent : List Char
  isAsync : Bool
  name : List Char
  list : WrittenList
  result : Option Result
  blank_indent : allBlank indent = true
  one_line : '\n' ∉ indent
  plain : IsPlainName name

namespace Heading

variable (h : Heading)

/-- The words in front of the parentheses. -/
def words : List Char :=
  (if h.isAsync then ['a', 's', 'y', 'n', 'c', ' '] else []) ++ 'd' :: 'e' :: 'f' :: ' ' :: h.name

def tail : List Char := (h.result.map fun r => ' ' :: '-' :: '>' :: ' ' :: r.text).getD []

/-- All up to the colon. -/
def body : List Char := h.indent ++ h.words ++ '(' :: (h.list.write ++ ')' :: h.tail)

def write : List Char := h.body ++ [':']

end Heading

/-! ## The line of the name -/

namespace Heading

variable (h : Heading) (more : List Char)

theorem words_eq_cons : ∃ c r, h.words = c :: r ∧ (c = 'a' ∨ c = 'd') := by
  unfold words
  cases h.isAsync with
  | false => exact ⟨_, _, rfl, .inr rfl⟩
  | true => exact ⟨_, _, rfl, .inl rfl⟩

theorem trimStart_line :
    trimStart (h.indent ++ h.words ++ '(' :: more) = h.words ++ '(' :: more := by
  rw [List.append_assoc]
  refine trimStart_append h.blank_indent ?_
  obtain ⟨c, r, hwords, rfl | rfl⟩ := h.words_eq_cons
  · rw [hwords]; simp; decide
  · rw [hwords]; simp; decide

theorem trimStart_name : trimStart (h.name ++ '(' :: more) = h.name ++ '(' :: more := by
  refine dropWhile_eq_self fun c hc => ?_
  rw [List.head?_append_of_ne_nil _ h.plain.1] at hc
  exact (h.plain.2 c (List.mem_of_mem_head? hc)).1

/-- The line is read from its name on. -/
theorem function?_eq : function? (h.indent ++ h.words ++ '(' :: more) =
    (takeName? (h.name ++ '(' :: more)).bind fun (name, after) =>
      if (trimStart after).head? = some '(' then some (.function name h.isAsync) else none := by
  have hdef : afterKeyword? ['d', 'e', 'f'] ('d' :: 'e' :: 'f' :: ' ' :: (h.name ++ '(' :: more)) =
      some (h.name ++ '(' :: more) := congrArg some (h.trimStart_name more)
  unfold function?
  rw [h.trimStart_line, words]
  cases h.isAsync with
  | false =>
    have hasync : afterKeyword? ['a', 's', 'y', 'n', 'c']
      ('d' :: 'e' :: 'f' :: ' ' :: (h.name ++ '(' :: more)) = none := rfl
    simp [hasync, hdef]
  | true =>
    have hasync : afterKeyword? ['a', 's', 'y', 'n', 'c']
        ('a' :: 's' :: 'y' :: 'n' :: 'c' :: ' ' :: 'd' :: 'e' :: 'f' :: ' ' ::
          (h.name ++ '(' :: more)) =
        some ('d' :: 'e' :: 'f' :: ' ' :: (h.name ++ '(' :: more)) := rfl
    simp [hasync, hdef]

theorem lineKind_line (hname : IsName h.name) : lineKind (h.indent ++ h.words ++ '(' :: more) =
    .declaration (.function h.name h.isAsync) := by
  have htake : takeName? (h.name ++ '(' :: more) = some (h.name, '(' :: more) :=
    takeName?_append hname.1 hname.2 fun c hc => by
      obtain rfl := Option.some.inj hc
      rfl
  refine lineKind_of_function? ?_
  rw [h.function?_eq, htake]
  rfl

/-- No function is read of a line whose name is no ASCII name: the parenthesis does not follow what
is read of the name. -/
theorem function?_eq_none (hname : ¬IsName h.name) :
    function? (h.indent ++ h.words ++ '(' :: more) = none := by
  rw [h.function?_eq]
  by_cases hascii : ∀ c ∈ h.name, isAsciiWord c = true
  · have hstart : ∀ c ∈ h.name.head?, isNameStart c = false := fun c hc =>
      Bool.eq_false_iff.2 fun hstart => hname ⟨⟨c, hc, hstart⟩, hascii⟩
    obtain ⟨c, r, hcons⟩ := List.exists_cons_of_ne_nil h.plain.1
    rw [hcons] at hstart ⊢
    rw [List.cons_append, takeName?, hstart c rfl]
    rfl
  · obtain hnone | ⟨read, c, after, htake, hc⟩ := takeName?_of_not_ascii hascii ('(' :: more)
    · rw [hnone]
      rfl
    · obtain ⟨hblank, hmark, -⟩ := h.plain.2 c hc
      have htrim : trimStart (c :: after) = c :: after := dropWhile_eq_self fun d hd => by
        obtain rfl := Option.some.inj hd
        exact hblank
      have hopen : c ≠ '(' := by
        rintro rfl
        cases hmark
      simp [htake, htrim, hopen]

theorem lineKind_line_of_not_name (hname : ¬IsName h.name) :
    lineKind (h.indent ++ h.words ++ '(' :: more) = .other := by
  obtain ⟨c, r, hwords, hc⟩ := h.words_eq_cons
  have htrim : trimStart (h.indent ++ h.words ++ '(' :: more) = c :: (r ++ '(' :: more) := by
    rw [h.trimStart_line, hwords, List.cons_append]
  rw [lineKind_of_front htrim hc, h.function?_eq_none more hname]
  rfl

/-! ## The whole header -/

theorem newline_not_mem_front : '\n' ∉ h.indent ++ h.words := by
  intro hmem
  rcases List.mem_append.1 hmem with hmem | hmem
  · exact h.one_line hmem
  rcases List.mem_append.1 hmem with hmem | hmem
  · split at hmem
    · exact absurd hmem (by decide)
    · cases hmem
  rcases List.mem_append.1 (show '\n' ∈ ['d', 'e', 'f', ' '] ++ h.name from hmem) with hmem | hmem
  · exact absurd hmem (by decide)
  · cases (h.plain.2 _ hmem).1

theorem plain_front (hname : IsName h.name) :
    ∀ c ∈ h.indent ++ h.words, isMark c = false ∧ c ∉ [':', '#', '\n'] := by
  intro c hc
  rcases List.mem_append.1 hc with hc | hc
  · obtain ⟨hmark, hsign⟩ :=
      plain_of_kind (allBlank_iff.1 h.blank_indent c hc) [':', '#'] (by decide)
    have hline : c ≠ '\n' := fun heq => h.one_line (heq ▸ hc)
    simp only [List.mem_cons, not_or] at hsign ⊢
    exact ⟨hmark, hsign.1, hsign.2.1, hline, hsign.2.2⟩
  rcases List.mem_append.1 hc with hc | hc
  · split at hc
    · exact plain_of_kind (List.contains_iff_mem.2 hc) _ (by decide)
    · cases hc
  · rcases List.mem_append.1 (show c ∈ ['d', 'e', 'f', ' '] ++ h.name from hc) with hc | hc
    · exact plain_of_kind (List.contains_iff_mem.2 hc) _ (by decide)
    · exact (plain_of_isAsciiWord (hname.2 c hc)).2

/-- What is written behind the parentheses does not end the header. -/
theorem tail_level : IsHeaderLevel h.tail ∧ ¬StandsOutside HeaderLevel.next? .outside ':' h.tail ∧
    ¬StandsOutside HeaderLevel.next? .outside '#' h.tail := by
  unfold tail
  cases h.result with
  | none => decide
  | some r =>
    have hstands : ∀ c, c ∉ [' ', '-', '>'] → ¬StandsOutside HeaderLevel.next? .outside c r.text →
        ¬StandsOutside HeaderLevel.next? .outside c (' ' :: '-' :: '>' :: ' ' :: r.text) := by
      intro c hc hnot hstands
      simp only [List.mem_cons, not_or] at hc
      exact hnot ((((hstands.of_cons rfl hc.1).of_cons rfl hc.2.1).of_cons rfl hc.2.2.1).of_cons rfl
        hc.1)
    exact ⟨(show IsHeaderLevel [' ', '-', '>', ' '] by decide).append r.level,
      hstands ':' (by decide) r.colon, hstands '#' (by decide) r.hash⟩

/-- The written header is read, up to its colon. -/
theorem line_body (hname : IsName h.name) : Reading.start.line h.body = .more
    ⟨0, none, .after, h.body.reverse, h.list.write.reverse, h.tail.reverse⟩ := by
  let front := h.indent ++ h.words
  have hfront : Reading.start.line front = .more ⟨0, none, .before, front.reverse, [], []⟩ := by
    have := Reading.line_before (r := .start) rfl rfl fun c hc => by
      have hplain := h.plain_front hname c hc
      simp only [List.mem_cons, not_or] at hplain
      exact ⟨hplain.1, hplain.2.1, hplain.2.2.1⟩
    rw [this]
    simp [front, Reading.start]
  have hlist := Reading.line_inside (r := ⟨1, none, .inside, '(' :: front.reverse, [], []⟩) rfl
    Int.one_pos rfl
    h.list.isHeaderLevel_write
  obtain ⟨htail, hcolon, hhash⟩ := h.tail_level
  have hafter := Reading.line_after (r := ⟨0, none, .after,
    ')' :: (h.list.write.reverse ++ '(' :: front.reverse), h.list.write.reverse, []⟩) rfl rfl rfl
    htail hcolon hhash
  rw [body, Reading.line_append_of_more hfront]
  have hopen : Reading.next ⟨0, none, .before, front.reverse, [], []⟩ '(' =
    .more ⟨1, none, .inside, '(' :: front.reverse, [], []⟩ := rfl
  have hclose : Reading.next ⟨1, none, .inside, h.list.write.reverse ++ '(' :: front.reverse,
    h.list.write.reverse, []⟩ ')' = .more ⟨0, none, .after,
      ')' :: (h.list.write.reverse ++ '(' :: front.reverse), h.list.write.reverse, []⟩ := rfl
  rw [Reading.line, hopen]
  dsimp only
  rw [Reading.line_append_of_more hlist, List.append_nil, Reading.line, hclose]
  dsimp only
  rw [hafter]
  simp [front]

/-- The result is read as it is written. -/
theorem returnType_tail :
    returnType h.tail = h.result.map fun r => String.ofList r.text := by
  unfold tail
  cases h.result with
  | none => rfl
  | some r =>
    have htrim : trim (' ' :: '-' :: '>' :: ' ' :: r.text) = '-' :: '>' :: ' ' :: r.text := by
      refine (trim_blank_append (show allBlank [' '] = true from rfl)).trans ?_
      refine dropAroundWhile_eq_self (fun c hc => ?_) fun c hc => ?_
      · obtain rfl := Option.some.inj hc
        rfl
      · refine (ends_of_singleSpaced r.spaced).2 c ?_
        rwa [← List.getLast?_append_of_ne_nil ['-', '>', ' '] r.ne_nil]
    have hblank : trim (' ' :: r.text) = r.text :=
      (trim_blank_append (show allBlank [' '] = true from rfl)).trans
        (trim_of_singleSpaced r.spaced)
    have hcolon : r.text.head? ≠ some ':' := fun heq => by
      obtain ⟨rest, hrest⟩ := List.head?_eq_some_iff.1 heq
      exact r.colon ⟨[], rest, hrest, rfl⟩
    have htext :=
      typeText_of_bare r.bare r.ne_nil r.spaced hcolon (show allBlank [] = true from rfl)
    have harrow : dropFront? ['-', '>'] ('-' :: '>' :: ' ' :: r.text) = some (' ' :: r.text) := rfl
    rw [List.nil_append] at htext
    rw [Option.map_some, Option.getD_some, returnType, htrim, harrow, Option.bind_some, hblank,
      htext, Option.map_some]

end Heading

/-! ## The fact -/

/-- The header of the function begins at the stop: the lines from there on, joined by line feeds,
begin with it. -/
def Heading.WrittenAt (h : Heading) (p : Stop) : Prop :=
  h.write <+: ['\n'].intercalate (p.line :: p.rest)

/-- The fact is that of the function: in a class, a method named after it, else a function. -/
structure Heading.Tells (h : Heading) (enclosing : Option (List Char × Bool)) (f : Fact) :
    Prop where
  name : f.name = match enclosing with
    | some (outer, _) => String.ofList (outer ++ '.' :: h.name)
    | none => String.ofList h.name
  kind : f.kind = if enclosing.isSome then .method else .function
  isAsync : f.isAsync = h.isAsync
  parameters : f.parameters = some (h.list.told (f.kind = .method))
  returnType : f.returnType = h.result.map fun r => String.ofList r.text

theorem Heading.header?_of_writtenAt {h : Heading} {p : Stop} (hwritten : h.WrittenAt p)
    (hname : IsName h.name) (hlines : ∀ line ∈ p.line :: p.rest, '\n' ∉ line)
    (hfew : h.write.count '\n' < maxHeaderLines) :
    p.header? = some (⟨h.body, some h.list.write, h.tail⟩, h.write.count '\n' + 1) := by
  obtain ⟨after, hafter⟩ := hwritten
  have hcount : h.write.count '\n' = h.body.count '\n' := by simp [Heading.write]
  have hdone : Reading.next ⟨0, none, .after, h.body.reverse, h.list.write.reverse, h.tail.reverse⟩
      ':' = .done ⟨h.body, some h.list.write, h.tail⟩ := by
    simp [Reading.next, Reading.finish]
  rw [Heading.write, List.append_assoc, List.singleton_append] at hafter
  rw [hcount] at hfew ⊢
  exact readOn_of_line hlines hafter.symm (h.line_body hname) hdone hfew

/-- The line of the name goes on behind the parenthesis. -/
theorem Heading.line_of_writtenAt {h : Heading} {p : Stop} (hwritten : h.WrittenAt p) :
    ∃ more, p.line = h.indent ++ h.words ++ '(' :: more := by
  obtain ⟨after, hafter⟩ := hwritten
  have hbegin : ['\n'].intercalate (p.line :: p.rest) = h.indent ++ h.words ++ ['('] ++
      (h.list.write ++ ')' :: h.tail ++ ':' :: after) := by
    rw [← hafter, Heading.write, Heading.body]
    simp
  obtain ⟨more, hline⟩ := prefix_of_joined hbegin fun hmem => by
    rcases List.mem_append.1 hmem with hmem | hmem
    · exact h.newline_not_mem_front hmem
    · simp at hmem
  exact ⟨more, by rw [hline, List.append_assoc, List.singleton_append]⟩

/-- A declaration with the header of the function is told with what is written. -/
theorem Heading.tells {h : Heading} {d : Declaration}
    (hdeclared : d.declared = .function h.name h.isAsync)
    (hheader : d.header = ⟨h.body, some h.list.write, h.tail⟩) : h.Tells d.enclosing d.whole := by
  refine ⟨?_, by rw [d.kind_whole, hdeclared, Declared.kind], ?_, ?_, ?_⟩
  · rw [d.name_whole, hdeclared, Declaration.qualify]
    cases d.enclosing <;> rfl
  · rw [Declaration.whole, hdeclared]
  · rw [Declaration.parameters_whole hdeclared, hheader, Option.getD_some,
      h.list.parametersOf_write]
  · rw [← h.returnType_tail, Declaration.whole, hdeclared, hheader]

/-- For a function that is written from a line on to which the pass comes, over as many lines as a
header may have, the survey has one fact, with what is written, when the name is an ASCII name. When
it is not, the survey has no fact for the line. -/
theorem survey_heading (docs : Bool) {source : String} {p : Stop} (hp : p ∈ stopsOf source)
    {h : Heading} (hwritten : h.WrittenAt p) (hfew : h.write.count '\n' < maxHeaderLines) :
    (survey docs source).facts = (declarations docs source).map Declaration.whole ∧
      (IsName h.name → ∃ earlier d later, declarations docs source = earlier ++ d :: later ∧
        (∀ e ∈ earlier, e.before < p.before) ∧ (∀ e ∈ later, p.before < e.before) ∧
        d.before = p.before ∧ d.whole.startLine = lineNumber p.before ∧
        h.Tells (enclosingClass p.outer) d.whole) ∧
      (¬IsName h.name → ∀ d ∈ declarations docs source, d.before ≠ p.before) := by
  obtain ⟨more, hline⟩ := Heading.line_of_writtenAt hwritten
  refine ⟨facts_survey docs source, fun hname => ?_, fun hname => ?_⟩
  · have hlines : ∀ line ∈ p.line :: p.rest, '\n' ∉ line := fun line hline =>
      newline_not_mem_lines (List.mem_of_mem_drop (drop_of_mem_stopsOf hp ▸ hline))
    have hheader := Heading.header?_of_writtenAt hwritten hname hlines hfew
    let d := p.declaration docs (.function h.name h.isAsync) ⟨h.body, some h.list.write, h.tail⟩
      (h.write.count '\n' + 1)
    have hkind : p.kind = .declaration (.function h.name h.isAsync) := by
      rw [Stop.kind, hline, h.lineKind_line more hname]
    have hfound : p.found? docs = some d := by
      rw [Stop.found?, hkind]
      dsimp only
      rw [hheader, Option.map_some]
    obtain ⟨earlier, later, hsplit, hearlier, hlater⟩ := declarations_eq_append hp hfound
    exact ⟨earlier, d, later, hsplit, hearlier, hlater, rfl, d.startLine_whole,
      Heading.tells (d := d) rfl rfl⟩
  · have hkind : p.kind = .other := by
      rw [Stop.kind, hline, h.lineKind_line_of_not_name more hname]
    have hfound : p.found? docs = none := by rw [Stop.found?, hkind]
    exact before_ne_of_found?_eq_none hp hfound

instance (h : Heading) (p : Stop) : Decidable (h.WrittenAt p) :=
  inferInstanceAs (Decidable (_ <+: _))

namespace Sending

/-- A class whose method has a header over three lines. -/
def source : String :=
  "class C:\n    async def send(self, /, url: Dict[str, \"a, b\"] = \x7b'k': [1, 2]\x7d,\n" ++
    "            *rest , **more:Callable[[int], str]=f(x == ')'),\n    ) -> List[\"c: d\"]:\n        pass\n"

def self_ : WrittenParameter where
  stars := 0
  name := "self".toList
  type := none
  value := none
  plain := by decide +kernel
  typed := by decide +kernel

def url : WrittenParameter where
  stars := 0
  name := "url".toList
  type := some
    { before := []
      after := [' ']
      text := "Dict[str, \"a, b\"]".toList
      blank_before := by decide +kernel
      blank_after := by decide +kernel
      ne_nil := by decide +kernel
      spaced := by decide +kernel
      part := ⟨by decide +kernel, by decide +kernel, by decide +kernel⟩ }
  value := some
    { before := [' ']
      after := [' ']
      text := "\x7b'k': [1, 2]\x7d".toList
      blank_before := by decide +kernel
      blank_after := by decide +kernel
      ne_nil := by decide +kernel
      spaced := by decide +kernel
      part := ⟨by decide +kernel, by decide +kernel, by decide +kernel⟩ }
  plain := by decide +kernel
  typed := by decide +kernel

def rest : WrittenParameter where
  stars := 1
  name := "rest".toList
  type := none
  value := none
  plain := by decide +kernel
  typed := by decide +kernel

def more : WrittenParameter where
  stars := 2
  name := "more".toList
  type := some
    { before := []
      after := []
      text := "Callable[[int], str]".toList
      blank_before := by decide +kernel
      blank_after := by decide +kernel
      ne_nil := by decide +kernel
      spaced := by decide +kernel
      part := ⟨by decide +kernel, by decide +kernel, by decide +kernel⟩ }
  value := some
    { before := []
      after := []
      text := "f(x == ')')".toList
      blank_before := by decide +kernel
      blank_after := by decide +kernel
      ne_nil := by decide +kernel
      spaced := by decide +kernel
      part := ⟨by decide +kernel, by decide +kernel, by decide +kernel⟩ }
  plain := by decide +kernel
  typed := by decide +kernel

def heading : Heading where
  indent := "    ".toList
  isAsync := true
  name := "send".toList
  list :=
    { places := [⟨[], .parameter self_, [], rfl, rfl⟩, ⟨[' '], .slash, [], rfl, rfl⟩,
        ⟨[' '], .parameter url, [], rfl, rfl⟩,
        ⟨"\n            ".toList, .parameter rest, [' '], by decide +kernel, rfl⟩,
        ⟨[' '], .parameter more, [], rfl, rfl⟩]
      ending := some "\n    ".toList
      blank_ending := by decide +kernel }
  result := some
    { text := "List[\"c: d\"]".toList
      ne_nil := by decide +kernel
      spaced := by decide +kernel
      bare := by decide +kernel
      level := by decide +kernel
      colon := by decide +kernel
      hash := by decide +kernel }
  blank_indent := by decide +kernel
  one_line := by decide +kernel
  plain := by decide +kernel

end Sending

/-- The method has the class in its name, its receiver is left out, and what stands in brackets and
quotes is kept together. -/
theorem survey_heading_of_sending :
    (∃ p ∈ stopsOf Sending.source, Sending.heading.WrittenAt p ∧
      Sending.heading.write.count '\n' < maxHeaderLines ∧
      IsName Sending.heading.name ∧
      (survey true Sending.source).facts =
        (declarations true Sending.source).map Declaration.whole ∧
      ∃ earlier d later, declarations true Sending.source = earlier ++ d :: later ∧
        (∀ e ∈ earlier, e.before < p.before) ∧ (∀ e ∈ later, p.before < e.before) ∧
        d.before = p.before ∧ d.whole.startLine = lineNumber p.before ∧
        Sending.heading.Tells (enclosingClass p.outer) d.whole) ∧
    (survey true Sending.source).facts.map
        (fun f => (f.name, f.isAsync, f.parameters, f.returnType)) =
      [("C", false, none, none),
        ("C.send", true, some
          [⟨"url", some "Dict[str, \"a, b\"]", true, some "\x7b'k': [1, 2]\x7d"⟩,
            ⟨"rest", none, false, none⟩,
            ⟨"more", some "Callable[[int], str]", true, some "f(x == ')')"⟩],
          some "List[\"c: d\"]")] := by
  have hreached : ∃ p ∈ stopsOf Sending.source, Sending.heading.WrittenAt p := by decide +kernel
  have hfew : Sending.heading.write.count '\n' < maxHeaderLines := by decide +kernel
  have hname : IsName Sending.heading.name := by decide +kernel
  obtain ⟨p, hp, hwritten⟩ := hreached
  obtain ⟨hfacts, htold, -⟩ := survey_heading true hp hwritten hfew
  exact ⟨⟨p, hp, hwritten, hfew, hname, hfacts, htold hname⟩, by decide +kernel⟩

namespace Summer

/-- A function whose name has letters beyond ASCII. -/
def source : String := "def été(x: int) -> str:\n    pass\n"

def x : WrittenParameter where
  stars := 0
  name := ['x']
  type := some
    { before := []
      after := [' ']
      text := ['i', 'n', 't']
      blank_before := by decide +kernel
      blank_after := by decide +kernel
      ne_nil := by decide +kernel
      spaced := by decide +kernel
      part := ⟨by decide +kernel, by decide +kernel, by decide +kernel⟩ }
  value := none
  plain := by decide +kernel
  typed := by decide +kernel

def heading : Heading where
  indent := []
  isAsync := false
  name := "été".toList
  list :=
    { places := [⟨[], .parameter x, [], rfl, rfl⟩]
      ending := none
      blank_ending := allBlank_none }
  result := some
    { text := "str".toList
      ne_nil := by decide +kernel
      spaced := by decide +kernel
      bare := by decide +kernel
      level := by decide +kernel
      colon := by decide +kernel
      hash := by decide +kernel }
  blank_indent := by decide +kernel
  one_line := by decide +kernel
  plain := by decide +kernel

end Summer

/-- The survey has no fact for a function with such a name: a name is read up to its first
character beyond ASCII, and the parenthesis has to follow. -/
theorem not_told_of_summer :
    (∃ p ∈ stopsOf Summer.source, Summer.heading.WrittenAt p) ∧
      Summer.heading.write.count '\n' < maxHeaderLines ∧
      (survey true Summer.source).facts = [] := by
  refine ⟨?_, ?_, ?_⟩ <;> decide +kernel

end CodeSurvey.Python
