-- The types and functions of a Go file, each told in its place. As the first brackets behind the name
-- of a type count as type parameters, a slice makes the file generic, and a slice of structs is
-- told for a class.
import CodeSurvey.Proofs.Go.TypeHeading
import CodeSurvey.Proofs.Survey.Facts

namespace CodeSurvey.Go

open Text

/-! ## Other lines -/

/-- The word at the front of a text. -/
def firstWord (s : List Char) : List Char := s.takeWhile isWordChar

/-- A line that begins with no keyword of a declaration. -/
def isOther (line : List Char) : Bool :=
  firstWord line ∉ [['t', 'y', 'p', 'e'], ['f', 'u', 'n', 'c']] &&
    firstWord (trimStart line) ≠ ['i', 'm', 'p', 'o', 'r', 't']

theorem firstWord_append {word rest : List Char} (hword : word.all isWordChar = true)
    (hrest : ∀ c ∈ rest.head?, isWordChar c = false) : firstWord (word ++ rest) = word :=
  takeWhile_append_eq_left (List.all_eq_true.1 hword) hrest

/-- In front of a parenthesis with blanks before it no word goes on. -/
theorem not_word_of_trimStart {rest : List Char} (h : (trimStart rest).head? = some '(') :
    ∀ c ∈ rest.head?, isWordChar c = false := by
  intro c hc
  obtain ⟨r, rfl⟩ := List.head?_eq_some_iff.1 hc
  by_contra hword
  have hword := Bool.not_eq_false _ ▸ hword
  rw [(Heading.trimStart_cons_of_isWordChar hword r).1] at h
  rw [Option.some.inj h] at hword
  exact absurd hword (by decide +kernel)

theorem afterKeyword?_of_firstWord {word line : List Char} (hword : word.all isWordChar = true)
    (h : firstWord line ≠ word) : afterKeyword? word line = none := by
  rw [Option.eq_none_iff_forall_ne_some]
  intro rest hrest
  obtain ⟨c, r, rfl, hblank, -⟩ := afterKeyword?_eq_some_iff.1 hrest
  refine h (firstWord_append hword ?_)
  rintro d ⟨⟩
  by_contra hd
  rw [not_blank_of_isWordChar (Bool.not_eq_false _ ▸ hd)] at hblank
  cases hblank

theorem lineKind_of_isOther {line : List Char} (h : isOther line = true) :
    lineKind false line = .other := by
  obtain ⟨hfirst, himport⟩ := Bool.and_eq_true_iff.1 h
  have hfirst := of_decide_eq_true hfirst
  have himport := of_decide_eq_true himport
  have hopens : opensImports line = false := by
    unfold opensImports
    split
    · rename_i rest hrest
      refine decide_eq_false fun hhead => himport ?_
      rw [dropFront?_eq_some_iff.1 hrest]
      exact firstWord_append (by decide +kernel) (not_word_of_trimStart hhead)
    · rfl
  have hspec : import? line = none := by
    rw [import?, afterKeyword?_of_firstWord (by decide +kernel) himport]
    rfl
  have htype : type? line = none := by
    rw [type?, afterKeyword?_of_firstWord (by decide +kernel) fun heq => hfirst (by simp [heq])]
    rfl
  have hfunction : function? line = none := by
    rw [function?, afterKeyword?_of_firstWord (by decide +kernel) fun heq => hfirst (by simp [heq])]
    rfl
  have hmethod : method? line = none := by
    unfold method?
    cases hrest : dropFront? ['f', 'u', 'n', 'c'] line with
    | none => rfl
    | some rest =>
      rw [Option.bind_eq_bind, Option.bind_some]
      split
      · rename_i hopen
        refine absurd ?_ hfirst
        rw [dropFront?_eq_some_iff.1 hrest, firstWord_append (by decide +kernel)
          (not_word_of_trimStart (by rw [hopen]; rfl))]
        simp
      · rfl
  rw [lineKind, hopens, hspec, htype, func?, hmethod, hfunction]
  rfl

/-! ## Files of types and functions -/

/-- An item of a file: a line that declares a type, a function or method over its lines, or a line
that begins no declaration, such as those of a struct behind its first. -/
inductive Item where
  | other (line : List Char) (h : isOther line = true)
  | type (h : TypeHeading)
  | func (d : Declaration)

/-- The fact is that of the type. -/
structure TypeTold (before : Nat) (h : TypeHeading) (f : Fact) : Prop where
  name : f.name = String.ofList h.name
  startLine : f.startLine = lineNumber before
  kind : f.kind = typeKind h.seen
  kind_iff : f.kind = h.kind ↔ ¬h.IsMisread

namespace Item

def lines : Item → List (List Char)
  | .other line _ => [line]
  | .type h => [h.write]
  | .func d => d.lines

def IsPlain : Item → Prop
  | .other _ _ => True
  | .type h => h.IsPlain
  | .func d => d.IsPlain

/-- The item declares type parameters. -/
def hasParameters : Item → Bool
  | .other _ _ => false
  | .type h => h.typeParameters.isSome
  | .func d => d.heading.typeParameters.isSome

/-- The item declares an array or a slice for a new type. -/
def isArray : Item → Bool
  | .type h => h.isArray
  | .other _ _ | .func _ => false

/-- The fact is that of the item, which stands below `before` lines. -/
def Tells (before : Nat) : Item → Fact → Prop
  | .other _ _, _ => False
  | .type h, f => TypeTold before h f
  | .func d, f => Told before d f

def declares : Item → Bool
  | .other _ _ => false
  | .type _ | .func _ => true

end Item

/-- The items that declare something, each with the number of lines before it. -/
def declared (before : Nat) : List Item → List (Nat × Item)
  | [] => []
  | i :: items =>
    (if i.declares then [(before, i)] else []) ++ declared (before + i.lines.length) items

/-- What a stop at an item tells, and where the pass goes on. -/
structure ReadAs (docs : Bool) (p : Stop) (i : Item) : Prop where
  used : 1 + p.used = i.lines.length
  leavesOpen : p.leavesOpen = false
  generics : (p.tell docs).features.generics = (i.hasParameters || i.isArray)
  fact : if i.declares then ∃ f, p.fact? docs = some f ∧ i.Tells p.before f else p.fact? docs = none

/-- The pass reads an item where it comes to its first line. -/
theorem Item.IsPlain.readAs (docs : Bool) {i : Item} (hplain : i.IsPlain) {p : Stop}
    (hopen : p.inImports = false) {after : List (List Char)}
    (hlines : p.line :: p.rest = i.lines ++ after) : ReadAs docs p i := by
  cases i with
  | other line h =>
    have hkind : p.kind = .other := by
      rw [Stop.kind, hopen, (List.cons.inj hlines).1, lineKind_of_isOther h]
    have htell : p.tell docs = FileFacts.nothing := by
      unfold Stop.tell
      rw [hkind]
    refine ⟨?_, ?_, ?_, ?_⟩
    · rw [Stop.used, hkind]
      rfl
    · rw [Stop.leavesOpen, hkind]
      exact hopen
    · rw [htell]
      rfl
    · rw [Stop.fact?, htell]
      rfl
  | type h =>
    have hkind : p.kind = .type
        ⟨h.name, h.typeParameters.isSome || h.isArray, typeWord (h.typeText h.left)⟩ := by
      rw [Stop.kind, hopen, (List.cons.inj hlines).1, TypeHeading.lineKind_write hplain]
    have htell : p.tell docs = tellType ⟨h.name, h.typeParameters.isSome || h.isArray,
        typeWord (h.typeText h.left)⟩ p.line p.before p.extra (p.doc docs) := by
      unfold Stop.tell
      rw [hkind]
    have hfact : ∃ f, p.fact? docs = some f := by
      rw [Stop.fact?, htell]
      exact ⟨_, rfl⟩
    obtain ⟨f, hf⟩ := hfact
    have htold : f.name = String.ofList h.name ∧ f.kind = typeKind h.seen := by
      rw [← TypeHeading.typeKind_typeWord]
      rw [Stop.fact?, htell] at hf
      obtain rfl := Option.some.inj hf
      exact ⟨rfl, rfl⟩
    refine ⟨?_, ?_, ?_, f, hf, htold.1, (Stop.lines_fact hf).1, htold.2, ?_⟩
    · rw [Stop.used, hkind]
      rfl
    · rw [Stop.leavesOpen, hkind]
      exact hopen
    · rw [htell]
      rfl
    · rw [htold.2]
      exact TypeHeading.typeKind_seen_iff
  | func d =>
    have hplain : d.IsPlain := hplain
    have hlines : p.line :: p.rest = d.lines ++ after := hlines
    have hextra : p.extra = d.more.length := by
      rw [Stop.extra, hlines, hplain.extraLines_lines]
    obtain ⟨rest, hkind⟩ := d.kind hplain.isAscii hopen hlines
    obtain ⟨f, hf, -, htold, hused, hclosed⟩ := d.exists_fact hplain.isAscii docs hopen hlines
    refine ⟨?_, hclosed, ?_, f, hf, htold hextra⟩
    · rw [hused, hextra]
      simp [Item.lines, Declaration.lines, Nat.add_comm]
    · unfold Stop.tell
      rw [hkind]
      simp [tellFunc, Heading.head, hasParameters, isArray]

/-- From a line on, outside of a block of imports, each declaration of the items is told, and one of
them is taken for generic when it has type parameters or is an array. -/
theorem readAs_stops (docs : Bool) {items : List Item} (hplain : ∀ i ∈ items, i.IsPlain)
    (before : Nat) (above : List (List Char)) :
    List.Forall₂ (fun p f => p.2.Tells p.1 f) (declared before items)
        ((stops before above false (items.flatMap Item.lines)).filterMap (·.fact? docs)) ∧
      (stops before above false (items.flatMap Item.lines)).any
          (fun p => (p.tell docs).features.generics) =
        items.any fun i => i.hasParameters || i.isArray := by
  -- An item opens no block of imports and uses up its lines, so that the pass is outside of a block
  -- at the first line of each item.
  induction items generalizing before above with
  | nil =>
    rw [List.flatMap_nil, stops]
    exact ⟨.nil, rfl⟩
  | cons i items ih =>
    obtain ⟨hi, hitems⟩ := List.forall_mem_cons.1 hplain
    have hne : i.lines ≠ [] := by
      cases i with
      | other line h | type h | func d => exact List.cons_ne_nil _ _
    obtain ⟨line, more, hlines⟩ := List.exists_cons_of_ne_nil hne
    let p : Stop := ⟨before, above, false, line, more ++ items.flatMap Item.lines⟩
    have hread : ReadAs docs p i := hi.readAs docs rfl (by rw [hlines]; rfl)
    have hused : p.used = more.length := by
      have := hread.used
      rw [hlines, List.length_cons] at this
      omega
    have hdrop : p.rest.drop p.used = items.flatMap Item.lines := List.drop_left' hused.symm
    have hbefore : p.before + 1 + p.used = before + i.lines.length := by
      rw [← hread.used, Nat.add_assoc]
    have hstops := stops_cons p
    rw [hread.leavesOpen, hdrop, hbefore] at hstops
    obtain ⟨hfacts, hgenerics⟩ := ih hitems (before + i.lines.length)
      ((p.rest.take p.used).reverse ++ p.line :: p.above)
    have hstart : stops before above false ((i :: items).flatMap Item.lines) =
        stops p.before p.above p.inImports (p.line :: p.rest) := by
      rw [List.flatMap_cons, hlines]
      rfl
    rw [hstart, hstops, declared]
    refine ⟨?_, ?_⟩
    · have hfact := hread.fact
      by_cases hdeclares : i.declares = true
      · rw [if_pos hdeclares] at hfact
        obtain ⟨f, hf, htells⟩ := hfact
        rw [if_pos hdeclares, List.filterMap_cons_some hf]
        exact .cons htells hfacts
      · rw [if_neg hdeclares] at hfact
        rw [if_neg hdeclares, List.filterMap_cons_none hfact]
        exact hfacts
    · rw [List.any_cons, List.any_cons, hread.generics, hgenerics]

/-- Over a file of types and functions the survey tells of each of them in their order. A type is
told for what it is unless it is misread, and the file has generics exactly when a type or a
function has type parameters or a new type is an array or a slice. -/
theorem survey_types (docs : Bool) {source : String} {items : List Item}
    (hlines : lines source.toList = items.flatMap Item.lines) (hplain : ∀ i ∈ items, i.IsPlain) :
    List.Forall₂ (fun p f => p.2.Tells p.1 f) (declared 0 items) (survey docs source).facts ∧
      ((survey docs source).features.generics = true ↔
        ∃ i ∈ items, i.hasParameters = true ∨ i.isArray = true) := by
  obtain ⟨hfacts, hgenerics⟩ := readAs_stops docs hplain 0 []
  constructor
  · rw [facts_survey, stopsOf, hlines]
    exact hfacts
  · rw [survey_eq, FileFacts.generics_concat, List.any_map, stopsOf, hlines]
    change (stops 0 [] false (items.flatMap Item.lines)).any
      (fun p => (p.tell docs).features.generics) = true ↔ _
    rw [hgenerics]
    simp

namespace Shaped

/-- A struct with a type parameter, and a function. -/
def source : String :=
  "package p\n\ntype Pair[K any] struct \x7b\n\tkey K\n\x7d\n\nfunc second() \x7b\n\x7d\n"

/-- A slice of structs. -/
def sliced : String := "type Rows []struct \x7b\n\tid int\n\x7d\n"

/-- A type behind one space, and a brace behind its first word. -/
def heading (name : List Char) (isIdentifier : IsIdentifier name) (typeParameters : Option Bracketed)
    (dimensions : List Dimension) : TypeHeading where
  gap := [' ']
  name := name
  typeParameters := typeParameters
  space := [' ']
  equals := none
  parens := []
  dimensions := dimensions
  base := .word structWord (by decide +kernel)
  rest := [' ', '\x7b']
  blank_gap := allBlank_space
  gap_ne_nil := space_ne_nil
  isIdentifier := isIdentifier
  blank_space := allBlank_space
  blank_equals := allBlank_none
  blank_parens := by simp
  whole := by
    rintro w hw - c ⟨⟩
    decide +kernel
  apart := by
    intro _ hspace
    cases hspace
  outside := by
    intro _ h heq
    cases heq

def pair : TypeHeading :=
  heading "Pair".toList (by decide +kernel) (some ⟨[], "K any".toList, allBlank_nil⟩) []

def rows : TypeHeading := heading "Rows".toList (by decide +kernel) none [⟨[], [], allBlank_nil⟩]

def items : List Item :=
  [.other "package p".toList (by decide +kernel), .other [] rfl, .type pair,
    .other "\tkey K".toList (by decide +kernel), .other ['\x7d'] (by decide +kernel), .other [] rfl,
    .func Compared.second]

def slicedItems : List Item :=
  [.type rows, .other "\tid int".toList (by decide +kernel), .other ['\x7d'] (by decide +kernel)]

end Shaped

/-- The struct is told for a class, and its type parameter makes the file generic. -/
theorem survey_types_of_pair :
    lines Shaped.source.toList = Shaped.items.flatMap Item.lines ∧
      (∀ i ∈ Shaped.items, i.IsPlain) ∧
      List.Forall₂ (fun p f => p.2.Tells p.1 f) (declared 0 Shaped.items)
        (survey true Shaped.source).facts ∧
      ((survey true Shaped.source).features.generics = true ↔
        ∃ i ∈ Shaped.items, i.hasParameters = true ∨ i.isArray = true) ∧
      ¬Shaped.pair.IsMisread := by
  have hlines : lines Shaped.source.toList = Shaped.items.flatMap Item.lines := by decide +kernel
  have hplain : ∀ i ∈ Shaped.items, i.IsPlain := by
    intro i hi
    simp only [Shaped.items, List.mem_cons, List.not_mem_nil, or_false] at hi
    rcases hi with rfl | rfl | rfl | rfl | rfl | rfl | rfl
    · trivial
    · trivial
    · exact ⟨List.all_eq_true.1 (by decide +kernel), by rintro t ⟨⟩; decide, by rintro d ⟨⟩⟩
    · trivial
    · trivial
    · trivial
    · exact ⟨by decide +kernel, by decide +kernel⟩
  have hread : ¬Shaped.pair.IsMisread := TypeHeading.typeKind_seen_iff.1 rfl
  obtain ⟨hfacts, hgenerics⟩ := survey_types true hlines hplain
  exact ⟨hlines, hplain, hfacts, hgenerics, hread⟩

/-- A slice of structs, which has no type parameters and is no struct, is told for a class, and makes
the file generic. -/
theorem slice_of_structs_is_generic_class :
    lines Shaped.sliced.toList = Shaped.slicedItems.flatMap Item.lines ∧
      Shaped.rows.kind = .typeAlias ∧ (∀ i ∈ Shaped.slicedItems, i.hasParameters = false) ∧
      (survey true Shaped.sliced).facts.map (fun f => (f.name, f.kind)) = [("Rows", .class_)] ∧
      (survey true Shaped.sliced).features.generics = true := by
  exact ⟨by decide +kernel, rfl, by decide, by decide +kernel, by decide +kernel⟩

end CodeSurvey.Go
