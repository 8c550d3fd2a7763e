-- The header of a Go function or method that stands on one line with the brace that opens its
-- body. The survey takes the text up to the first brace for it, so that the signature and the
-- result are whole exactly when no brace stands in a type before that of the body.
import CodeSurvey.Proofs.Go.ByOffset
import CodeSurvey.Proofs.Go.Heading
import CodeSurvey.Proofs.Go.Parameters
import CodeSurvey.Proofs.Survey.Facts

namespace CodeSurvey.Go

open Text

/-! ## Balanced parentheses -/

/-- The number of open parentheses behind the character. Where none is open none is closed. -/
def parentheses? (depth : Nat) (c : Char) : Option Nat :=
  if c = '(' then some (depth + 1)
  else if c = ')' then if depth = 0 then none else some (depth - 1)
  else some depth

/-- Each parenthesis of the text is closed in it, and no others are. -/
def IsBalanced (s : List Char) : Prop := ComesBack parentheses? 0 s

instance (s : List Char) : Decidable (IsBalanced s) := inferInstanceAs (Decidable (ComesBack _ _ _))

theorem closing?_append {s : List Char} {depth depth' : Nat}
    (h : s.foldlM parentheses? depth = some depth') (t : List Char) :
    closing? depth (s ++ t) = (closing? depth' t).map fun cut => (s ++ cut.1, cut.2) := by
  induction s generalizing depth with
  | nil =>
    obtain rfl := Option.some.inj h
    simp
  | cons c s ih =>
    rw [List.foldlM_cons] at h
    obtain ⟨next, hnext, h⟩ := Option.bind_eq_some_iff.1 h
    rw [List.cons_append]
    unfold parentheses? at hnext
    conv_lhs => unfold closing?
    by_cases hopen : c = '('
    · rw [if_pos hopen] at hnext
      obtain rfl := Option.some.inj hnext
      rw [if_neg (by simp [hopen]), if_pos hopen, ih h, Option.map_map]
      rfl
    · rw [if_neg hopen] at hnext
      by_cases hclose : c = ')'
      · rw [if_pos hclose] at hnext ⊢
        cases depth with
        | zero => simp at hnext
        | succ depth =>
          obtain rfl := Option.some.inj hnext
          dsimp only
          rw [Nat.add_sub_cancel] at h
          rw [ih h, Option.map_map]
          rfl
      · rw [if_neg hclose] at hnext ⊢
        obtain rfl := Option.some.inj hnext
        rw [if_neg hopen, ih h, Option.map_map]
        rfl

/-- A balanced text ends at the parenthesis behind it. -/
theorem IsBalanced.closing? {s : List Char} (h : IsBalanced s) (t : List Char) :
    Go.closing? 0 (s ++ ')' :: t) = some (s, t) := by
  rw [closing?_append h]
  simp [Go.closing?]

/-! ## Written headers -/

/-- The text with even spaces; none when it is blank. -/
def evenText? (s : List Char) : Option String :=
  if allBlank s then none else some (String.ofList (singleSpaced s))

/-- The text, but for blanks, has no sign at its ends that the reader of types cuts off. No type
begins with an arrow to the right or a colon, or ends with a colon or a semicolon. -/
structure IsBare (s : List Char) : Prop where
  no_arrow : dropFront? ['-', '>'] (trim s) = none
  no_colon : (trim s).head? ≠ some ':'
  no_end : ∀ c ∈ (trim s).getLast?, c ≠ ';' ∧ c ≠ ':'

-- The last character of the text is looked at, not all that there are.
instance (s : List Char) : Decidable (IsBare s) :=
  have : Decidable (∀ c ∈ (trim s).getLast?, c ≠ ';' ∧ c ≠ ':') := Option.decidableForallMem _
  decidable_of_iff (_ ∧ _ ∧ _) ⟨fun ⟨h₁, h₂, h₃⟩ => ⟨h₁, h₂, h₃⟩,
    fun h => ⟨h.no_arrow, h.no_colon, h.no_end⟩⟩

/-- What is written behind the parameters: nothing, a type, or a list of types in parentheses,
perhaps with names. -/
inductive IsResult : List Token → Prop
  | nothing : IsResult []
  | type {ts} : IsPhrase .type ts → IsResult ts
  | list {ts} : IsPhrase .list ts → IsResult (Token.enclosed .round ts)

/-- Results are bare, whatever blanks stand between their tokens. -/
theorem IsResult.isBare {items : List (Token × List Char)} (h : IsResult (items.map Prod.fst))
    (hblank : ∀ i ∈ items, allBlank i.2 = true) {front : List Char} (hfront : allBlank front = true) :
    IsBare (front ++ spelled items) := by
  by_cases hnil : items = []
  · have htrim : trim (front ++ spelled items) = [] := by
      rw [hnil]
      exact trim_of_allBlank ((List.append_nil front).symm ▸ hfront)
    exact ⟨by rw [htrim]; rfl, by rw [htrim]; simp, by rw [htrim]; simp⟩
  · have hedged : Edged (items.map Prod.fst) := by
      generalize hts : items.map Prod.fst = ts at h
      cases h with
      | nothing => exact absurd (List.map_eq_nil_iff.1 hts) hnil
      | type h => exact h.edged (by simp)
      | list h => exact .enclosed _ _
    obtain ⟨s, back, hs, hback, -, hfirst, hlast⟩ := hedged.exists_body hblank
    have htrim : trim (front ++ spelled items) = s := by
      rw [hs, ← List.append_assoc, trim_append hfront hback]
      exact dropAroundWhile_eq_self (fun c hc => (hfirst c hc).1) fun c hc => (hlast c hc).1
    have hdash : s.head? ≠ some '-' := fun heq => (hfirst _ heq).2.1 rfl
    refine ⟨?_, ?_, ?_⟩
    · rw [htrim, dropFront?_of_head?_ne hdash]
    · rw [htrim]
      exact fun heq => (hfirst _ heq).2.2 rfl
    · rw [htrim]
      exact fun c hc => ⟨(hlast c hc).2.1, (hlast c hc).2.2.1⟩

/-- A header up to the brace of the body: the heading, the parameters with the parenthesis that
closes them, and the result. -/
structure Header where
  heading : Heading
  parameters : List Char
  result : List Char
  isBalanced : IsBalanced parameters
  isBare : IsBare result

def Header.write (h : Header) : List Char := h.heading.write ++ h.parameters ++ ')' :: h.result

/-! ## Reading -/

theorem typeText_trim {s : List Char} (h : IsBare s) (hbrace : '\x7b' ∉ s) :
    typeText (trim s) = evenText? s := by
  unfold evenText?
  by_cases hblank : allBlank s = true
  · rw [if_pos hblank, trim_of_allBlank hblank]
    rfl
  · have hne : trim s ≠ [] := fun hnil => hblank (trim_eq_nil_iff.1 hnil)
    have hend : ∀ c ∈ (trim s).getLast?, c ≠ ';' ∧ c ≠ ':' ∧ c ≠ '\x7b' := by
      intro c hc
      refine ⟨(h.no_end c hc).1, (h.no_end c hc).2, ?_⟩
      rintro rfl
      exact hbrace (mem_dropAroundWhile (List.mem_of_getLast? hc))
    have hread := typeText_append hne (trim_trim s) h.no_arrow h.no_colon hend
      (show allBlank [] = true from rfl)
    rw [List.nil_append, singleSpaced_trim] at hread
    rw [if_neg hblank, hread]

/-- The result that is read of a text up to its first brace is that of the whole text exactly when
there is no brace in it. -/
theorem typeText_before_iff {s : List Char} (h : IsBare s) :
    typeText (trim (before ['\x7b'] s)) = evenText? s ↔ '\x7b' ∉ s := by
  constructor
  · intro hread hmem
    have hblank : allBlank s = false := by
      rw [← Bool.not_eq_true, allBlank_iff]
      intro hall
      have := hall _ hmem
      cases this
    unfold evenText? at hread
    rw [hblank, if_neg Bool.false_ne_true] at hread
    have hbrace : '\x7b' ∈ (String.ofList (singleSpaced s)).toList := by
      rw [String.toList_ofList]
      exact (mem_singleSpaced rfl).2 hmem
    exact not_mem_before _ s (mem_dropAroundWhile (mem_of_typeText hread rfl hbrace))
  · intro hbrace
    rw [before_of_not_mem hbrace, typeText_trim h hbrace]

/-- The text up to the first brace is that of the whole, with even spaces, exactly when there is no
brace in it. -/
theorem singleSpaced_before_iff {s : List Char} :
    singleSpaced (before ['\x7b'] s) = singleSpaced s ↔ '\x7b' ∉ s := by
  constructor
  · intro hread hmem
    have hbrace := (mem_singleSpaced (c := '\x7b') rfl).2 hmem
    rw [← hread, mem_singleSpaced rfl] at hbrace
    exact not_mem_before _ s hbrace
  · intro hbrace
    rw [before_of_not_mem hbrace]

/-- Lines joined, of which the first has a brace, up to the first brace. -/
theorem headerText_of_brace (s t : List Char) (more : List (List Char)) :
    headerText ((s ++ '\x7b' :: t) :: more) =
      String.ofList (singleSpaced (before ['\x7b'] s)) := by
  have hjoined : ∃ u, ['\n'].intercalate ((s ++ '\x7b' :: t) :: more) = s ++ '\x7b' :: u := by
    cases more with
    | nil => exact ⟨t, by simp⟩
    | cons next more =>
      refine ⟨t ++ '\n' :: ['\n'].intercalate (next :: more), ?_⟩
      rw [List.intercalate_cons_cons]
      simp
  obtain ⟨u, hu⟩ := hjoined
  rw [headerText, hu, before_append_cons]

/-- What the survey tells of the header of a fact: the text up to its first brace. The signature is
the whole header exactly when it has no brace in it, and the result is whole exactly when it has
none. -/
structure TellsHeader (h : Header) (f : Fact) : Prop where
  signature : f.signature = String.ofList (singleSpaced (before ['\x7b'] h.write))
  signature_iff : f.signature = String.ofList (singleSpaced h.write) ↔ '\x7b' ∉ h.write
  returnType_iff : f.returnType = evenText? h.result ↔ '\x7b' ∉ h.result

theorem Header.tellsHeader {h : Header} (docs : Bool) {p : Stop} {body : List Char}
    (hline : p.line = h.write ++ '\x7b' :: body)
    (hkind : p.kind =
      .func (h.heading.head (h.parameters ++ ')' :: (h.result ++ '\x7b' :: body)))) :
    ∃ f, p.fact? docs = some f ∧ TellsHeader h f := by
  have hsignature := headerText_of_brace h.write body (p.rest.take p.extra)
  have hresult : (parametersAndResult (h.parameters ++ ')' :: (h.result ++ '\x7b' :: body))).2 =
      typeText (trim (before ['\x7b'] h.result)) := by
    unfold parametersAndResult
    rw [h.isBalanced.closing?]
    dsimp only
    rw [before_append_cons]
  have htells : ∀ f : Fact, f.signature = headerText (p.line :: p.rest.take p.extra) →
      f.returnType = typeText (trim (before ['\x7b'] h.result)) → TellsHeader h f := by
    intro f hf hreturn
    rw [hline, hsignature] at hf
    refine ⟨hf, ?_, ?_⟩
    · rw [hf, String.ofList_inj, singleSpaced_before_iff]
    · rw [hreturn, typeText_before_iff h.isBare]
  unfold Stop.fact? Stop.tell
  rw [hkind]
  exact ⟨_, rfl, htells _ rfl hresult⟩

/-- At a line to which the pass comes outside of a block of imports, and which is the header of a
function or method up to the brace of its body, the survey tells of a fact, unless a character of
the name is beyond ASCII. Its signature is the header with even spaces exactly when no brace of a
type stands in it, and its result is what stands behind the parameters exactly when none stands
there. -/
theorem survey_signature (docs : Bool) {source : String} {p : Stop} (hp : p ∈ stopsOf source)
    (hopen : p.inImports = false) {h : Header} {body : List Char}
    (hline : p.line = h.write ++ '\x7b' :: body) :
    if h.heading.IsAscii then
      ∃ f ∈ (survey docs source).facts, p.fact? docs = some f ∧
        f.startLine = lineNumber p.before ∧ TellsHeader h f
    else p.fact? docs = none := by
  have hwritten : p.line =
      h.heading.write ++ (h.parameters ++ ')' :: (h.result ++ '\x7b' :: body)) := by
    rw [hline, Header.write]
    simp
  have hkind : p.kind = if h.heading.IsAscii then
      .func (h.heading.head (h.parameters ++ ')' :: (h.result ++ '\x7b' :: body))) else .other := by
    rw [Stop.kind, hopen, hwritten, Heading.lineKind_write]
  split
  · rw [if_pos ‹_›] at hkind
    obtain ⟨f, hf, htells⟩ := Header.tellsHeader docs hline hkind
    have hmem : f ∈ (survey docs source).facts := by
      rw [facts_survey]
      exact List.mem_filterMap.2 ⟨p, hp, hf⟩
    exact ⟨f, hmem, hf, (Stop.lines_fact hf).1, htells⟩
  · rw [if_neg ‹_›] at hkind
    unfold Stop.fact? Stop.tell
    rw [hkind]
    rfl

namespace Signed

/-- A method with a function for its result, and a function whose types have braces. -/
def source : String :=
  "package p\n\nfunc (s *T) Run(m map[string]int) (func() error) \x7b\n\treturn nil\n\x7d\n\n" ++
    "func f(x interface\x7b\x7d) struct\x7b\x7d \x7b\n\x7d\n"

def error : Word := ⟨"error".toList, by decide, by decide +kernel⟩

/-- The result of the method, with the blanks behind its tokens. -/
def result : List (Token × List Char) :=
  [(.opening .round, []), (.func, []), (.opening .round, []), (.closing .round, [' ']),
    (.word error, []), (.closing .round, [' '])]

theorem isResult : IsResult (result.map Prod.fst) :=
  .list (.lastEntry (.entry (.inl rfl) (.inl rfl)
    (.func (.returning .noEntry (.named (.name error))))))

def run : Header where
  heading := .spaced (some ⟨[' '], "s *T".toList, allBlank_space⟩) "Run".toList (by decide +kernel)
    (by rintro r ⟨⟩; decide)
  parameters := "m map[string]int".toList
  result := [' '] ++ spelled result
  isBalanced := by decide
  isBare := isResult.isBare (by decide) allBlank_space

def f : Header where
  heading := .spaced none ['f'] (by decide +kernel) Heading.closed_none
  parameters := "x interface\x7b\x7d".toList
  result := " struct\x7b\x7d ".toList
  isBalanced := by decide
  isBare := by decide

end Signed

/-- The header of the method has no brace in it, and is told whole. -/
theorem survey_signature_of_run :
    (∃ p ∈ stopsOf Signed.source, p.inImports = false ∧
      p.line = Signed.run.write ++ '\x7b' :: [] ∧
      if Signed.run.heading.IsAscii then
        ∃ f ∈ (survey true Signed.source).facts, p.fact? true = some f ∧
          f.startLine = lineNumber p.before ∧ TellsHeader Signed.run f
      else p.fact? true = none) ∧
    Signed.run.heading.IsAscii ∧ '\x7b' ∉ Signed.run.write := by
  have hreached : ∃ p ∈ stopsOf Signed.source, p.inImports = false ∧
      p.line = Signed.run.write ++ '\x7b' :: [] := by
    decide +kernel
  obtain ⟨p, hp, hopen, hline⟩ := hreached
  exact ⟨⟨p, hp, hopen, hline, survey_signature true hp hopen hline⟩, by decide +kernel, by decide⟩

/-- The header of the function is cut at the brace of the first of its types, and its result at the
brace of the second. -/
theorem header_cut_at_brace_of_type :
    (∃ p ∈ stopsOf Signed.source, p.inImports = false ∧
      p.line = Signed.f.write ++ '\x7b' :: []) ∧
    singleSpaced Signed.f.write = "func f(x interface\x7b\x7d) struct\x7b\x7d".toList ∧
    evenText? Signed.f.result = some "struct\x7b\x7d" ∧
    (survey true Signed.source).facts.map (fun f => (f.name, f.signature, f.returnType)) =
      [("T.Run", "func (s *T) Run(m map[string]int) (func() error)", some "(func() error)"),
        ("f", "func f(x interface", some "struct")] := by
  exact ⟨by decide +kernel, by decide +kernel, by decide +kernel, by decide +kernel⟩

end CodeSurvey.Go
