-- The line that declares a Go type, and what is read of it. The survey takes the first brackets
-- behind the name for type parameters, and a first word that only begins like `struct` or
-- `interface` for these.
import CodeSurvey.Proofs.Go.Extent

namespace CodeSurvey.Go

open Text

/-! ## Written types -/

def structWord : List Char := ['s', 't', 'r', 'u', 'c', 't']

def interfaceWord : List Char := ['i', 'n', 't', 'e', 'r', 'f', 'a', 'c', 'e']

/-- The brackets of an array, or those of a slice with nothing in them, and the blanks behind. -/
structure Dimension where
  length : List Char
  gap : List Char
  blank_gap : allBlank gap = true

def Dimension.write (d : Dimension) : List Char := '[' :: (d.length ++ ']' :: d.gap)

/-- What a type begins with that is no array: a word, or the sign of a pointer, of parentheses or
of an arrow. -/
inductive Base where
  | word (w : List Char) (h : IsIdentifier w)
  | sign (c : Char) (h : c ∈ ['*', '(', '<'])

def Base.write : Base → List Char
  | .word w _ => w
  | .sign c _ => [c]

/-- What a type is that begins so. -/
def Base.kind : Base → FactKind
  | .word w _ =>
    if w = structWord then .class_ else if w = interfaceWord then .interface else .typeAlias
  | .sign _ _ => .typeAlias

/-- A line that declares a type: the keyword, the name, perhaps type parameters, perhaps the sign of
an alias with the blanks behind it, and the type. The type may stand in parentheses, each with
blanks behind it, and is an array for each of its dimensions. Behind its first word stands the
rest of the line. -/
structure TypeHeading where
  gap : List Char
  name : List Char
  typeParameters : Option Bracketed
  space : List Char
  equals : Option (List Char)
  parens : List (List Char)
  dimensions : List Dimension
  base : Base
  rest : List Char
  blank_gap : allBlank gap = true
  gap_ne_nil : gap ≠ []
  isIdentifier : IsIdentifier name
  blank_space : allBlank space = true
  blank_equals : ∀ s ∈ equals, allBlank s = true
  blank_parens : ∀ s ∈ parens, allBlank s = true
  whole : ∀ w hw, base = .word w hw → ∀ c ∈ rest.head?, isWordChar c = false
  apart : typeParameters = none → space = [] → equals = none → parens = [] → dimensions = [] →
    ∀ w hw, base ≠ .word w hw
  outside : dimensions = [] → ∀ h, base ≠ .sign '(' h

namespace TypeHeading

variable (h : TypeHeading)

/-- The type with these of its dimensions, and the rest of the line. -/
def typeText (dimensions : List Dimension) : List Char :=
  h.parens.flatMap ('(' :: ·) ++ (dimensions.flatMap Dimension.write ++ (h.base.write ++ h.rest))

def equalsText : List Char := (h.equals.map ('=' :: ·)).getD []

/-- All behind the name. -/
def back : List Char :=
  (h.typeParameters.map fun t => t.gap ++ '[' :: (t.text ++ [']'])).getD [] ++
    (h.space ++ (h.equalsText ++ h.typeText h.dimensions))

def write : List Char := ['t', 'y', 'p', 'e'] ++ (h.gap ++ (h.name ++ h.back))

/-- What the type is. -/
def kind : FactKind := if h.dimensions = [] then h.base.kind else .typeAlias

/-- The type is new and an array, with no parentheses around it: brackets stand where type
parameters could. -/
def isArray : Bool :=
  h.typeParameters.isNone && h.equals.isNone && h.parens.isEmpty && !h.dimensions.isEmpty

/-- The name is an ASCII name, and no bracket closes in the brackets behind it. -/
structure IsPlain : Prop where
  isAscii : ∀ c ∈ h.name, isAsciiWord c = true
  closed_typeParameters : ∀ t ∈ h.typeParameters, ']' ∉ t.text
  closed_length : ∀ d ∈ h.dimensions.head?, ']' ∉ d.length

end TypeHeading

/-! ## What is read of a type -/

/-- The word begins like one of the two keywords. -/
def BeginsLikeKeyword (w : List Char) : Prop := structWord <+: w ∨ interfaceWord <+: w

namespace TypeHeading

variable (h : TypeHeading)

/-- The dimensions without brackets that are taken for type parameters. -/
def left : List Dimension := if h.isArray then h.dimensions.tail else h.dimensions

/-- The word by which the survey tells what the type is. -/
def seen : List Char :=
  match h.base with
  | .word w _ => if h.parens = [] ∧ h.left = [] then w else []
  | .sign _ _ => []

/-- The type is taken for something else: it is an array of one dimension whose element begins like
one of the keywords, or begins itself with a longer word that begins like one of them, or is a
struct or an interface in parentheses. -/
def IsMisread : Prop :=
  ∃ w hw, h.base = .word w hw ∧
    (h.isArray = true ∧ h.dimensions.length = 1 ∧ BeginsLikeKeyword w ∨
      h.dimensions = [] ∧ h.parens = [] ∧ BeginsLikeKeyword w ∧ w ∉ [structWord, interfaceWord] ∨
      h.dimensions = [] ∧ h.parens ≠ [] ∧ w ∈ [structWord, interfaceWord])

end TypeHeading

theorem startsWith_iff (head s : List Char) : startsWith head s = true ↔ head <+: s :=
  List.isPrefixOf_iff_prefix

theorem typeKind_eq (w : List Char) :
    typeKind w = if structWord <+: w then .class_ else if interfaceWord <+: w then .interface
      else .typeAlias := by
  have hstruct := startsWith_iff structWord w
  have hinterface := startsWith_iff interfaceWord w
  unfold typeKind
  change (if startsWith structWord w = true then _ else if startsWith interfaceWord w = true then _
    else _) = _
  simp only [hstruct, hinterface]

theorem typeKind_eq_typeAlias_iff (w : List Char) :
    typeKind w = .typeAlias ↔ ¬BeginsLikeKeyword w := by
  rw [typeKind_eq]
  unfold BeginsLikeKeyword
  split
  · simp [*]
  · split
    · simp [*]
    · simp [*]

/-- A word is told for what it is, unless it only begins like a keyword. -/
theorem typeKind_eq_kind_iff {w : List Char} (hw : IsIdentifier w) :
    typeKind w = (Base.word w hw).kind ↔ ¬(BeginsLikeKeyword w ∧ w ∉ [structWord, interfaceWord]) := by
  rw [typeKind_eq, Base.kind]
  unfold BeginsLikeKeyword
  by_cases hs : w = structWord
  · subst hs
    simp
  · by_cases hi : w = interfaceWord
    · subst hi
      have : ¬structWord <+: interfaceWord := by decide
      simp [this, hs]
    · simp only [hs, hi, if_false, List.mem_cons, List.not_mem_nil, or_self,
        not_false_eq_true, and_true]
      split
      · simp [*]
      · split
        · simp [*]
        · simp [*]

namespace TypeHeading

variable {h : TypeHeading}

theorem isArray_iff : h.isArray = true ↔ h.typeParameters = none ∧ h.equals = none ∧ h.parens = [] ∧
    h.dimensions ≠ [] := by
  unfold isArray
  simp [and_assoc]

/-- The word that is seen tells what the type is, unless it is misread. -/
theorem typeKind_seen_iff : typeKind h.seen = h.kind ↔ ¬h.IsMisread := by
  cases hbase : h.base with
  | sign c hc =>
    have hkind : h.kind = .typeAlias := by
      rw [kind, hbase]
      exact ite_self _
    have hclear : ¬h.IsMisread := by
      rintro ⟨w, hw, heq, -⟩
      rw [hbase] at heq
      cases heq
    rw [seen, hbase, hkind]
    exact iff_of_true rfl hclear
  | word w hw =>
    have hmisread : h.IsMisread ↔ h.isArray = true ∧ h.dimensions.length = 1 ∧ BeginsLikeKeyword w ∨
        h.dimensions = [] ∧ h.parens = [] ∧ BeginsLikeKeyword w ∧ w ∉ [structWord, interfaceWord] ∨
        h.dimensions = [] ∧ h.parens ≠ [] ∧ w ∈ [structWord, interfaceWord] := by
      unfold IsMisread
      rw [hbase]
      constructor
      · rintro ⟨w', hw', heq, hcases⟩
        obtain rfl := Base.word.inj heq
        exact hcases
      · exact fun hcases => ⟨w, hw, rfl, hcases⟩
    have hseen : h.seen = if h.parens = [] ∧ h.left = [] then w else [] := by
      rw [seen, hbase]
    have halias : typeKind [] = .typeAlias := rfl
    rw [hmisread, hseen, kind, hbase]
    by_cases hdims : h.dimensions = []
    · have harray : ¬h.isArray = true := fun harray => (isArray_iff.1 harray).2.2.2 hdims
      have hleft : h.left = [] := by rw [left, if_neg harray, hdims]
      by_cases hparens : h.parens = []
      · rw [if_pos ⟨hparens, hleft⟩, if_pos hdims, typeKind_eq_kind_iff hw]
        simp [harray, hdims, hparens]
      · have hkind : FactKind.typeAlias = (Base.word w hw).kind ↔ w ∉ [structWord, interfaceWord] := by
          unfold Base.kind
          by_cases hs : w = structWord
          · simp [hs]
          · by_cases hi : w = interfaceWord
            · have hne : interfaceWord ≠ structWord := by decide
              simp [hi, hne]
            · simp [hs, hi]
        rw [if_neg fun hand => hparens hand.1, if_pos hdims, halias, hkind]
        simp [harray, hdims, hparens]
    · rw [if_neg hdims]
      by_cases harray : h.isArray = true
      · have hparens := (isArray_iff.1 harray).2.2.1
        have hleft : h.left = [] ↔ h.dimensions.length = 1 := by
          rw [left, if_pos harray]
          obtain ⟨d, ds, hcons⟩ := List.exists_cons_of_ne_nil hdims
          simp [hcons]
        by_cases hone : h.dimensions.length = 1
        · rw [if_pos ⟨hparens, hleft.2 hone⟩, typeKind_eq_typeAlias_iff]
          simp [harray, hone, hdims]
        · rw [if_neg fun hand => hone (hleft.1 hand.2), halias]
          simp [hone, hdims]
      · have hleft : h.left ≠ [] := by rwa [left, if_neg harray]
        rw [if_neg fun hand => hleft hand.2, halias]
        simp [harray, hdims]

/-! ## Reading -/

/-- A type begins with a parenthesis, a bracket, a sign or a name. -/
theorem head?_typeText (dimensions : List Dimension) :
    ∀ c ∈ (h.typeText dimensions).head?, isBlank c = false ∧ c ≠ '=' := by
  intro c hc
  unfold typeText at hc
  cases hparens : h.parens with
  | cons s parens =>
    rw [hparens] at hc
    obtain rfl := Option.some.inj hc
    decide
  | nil =>
    rw [hparens] at hc
    cases dimensions with
    | cons d dimensions =>
      obtain rfl := Option.some.inj hc
      decide
    | nil =>
      cases hbase : h.base with
      | sign d hd =>
        rw [hbase] at hc
        obtain rfl : d = c := Option.some.inj hc
        simp only [List.mem_cons, List.not_mem_nil, or_false] at hd
        rcases hd with rfl | rfl | rfl
        all_goals decide
      | word w hw =>
        rw [hbase] at hc
        refine ⟨hw.head?_not_blank h.rest c hc, ?_⟩
        rintro rfl
        change (w ++ h.rest).head? = some '=' at hc
        rw [List.head?_append_of_ne_nil _ hw.ne_nil] at hc
        exact hw.head?_ne (by decide +kernel) hc

/-- Behind the name stand blanks or a sign. -/
theorem head?_back : ∀ c ∈ h.back.head?, isAsciiWord c = false := by
  unfold back equalsText
  cases htypes : h.typeParameters with
  | some t =>
    rw [Option.map_some, Option.getD_some, List.append_assoc]
    exact head?_append_of_allBlank t.blank_gap (by rintro c ⟨⟩; rfl)
  | none =>
    by_cases hspace : h.space = []
    · rw [hspace]
      cases hequals : h.equals with
      | some s => rintro c ⟨⟩; rfl
      | none =>
        unfold typeText
        cases hparens : h.parens with
        | cons s parens => rintro c ⟨⟩; rfl
        | nil =>
          cases hdims : h.dimensions with
          | cons d dimensions => rintro c ⟨⟩; rfl
          | nil =>
            cases hbase : h.base with
            | word w hw => exact absurd hbase (h.apart htypes hspace hequals hparens hdims w hw)
            | sign c hc =>
              simp only [List.mem_cons, List.not_mem_nil, or_false] at hc
              rcases hc with rfl | rfl | rfl
              all_goals rintro d ⟨⟩; rfl
    · obtain ⟨c, space, hcons⟩ := List.exists_cons_of_ne_nil hspace
      rw [hcons]
      rintro d ⟨⟩
      exact not_isAsciiWord_of_blank (allBlank_iff.1 h.blank_space c (hcons ▸ List.mem_cons_self))

/-- The first brackets are taken for type parameters, and the others are left. -/
theorem skipBrackets_back (hplain : h.IsPlain) :
    (skipBrackets (trimStart h.back)).1 = (h.typeParameters.isSome || h.isArray) ∧
      trimStart (skipBrackets (trimStart h.back)).2 = h.equalsText ++ h.typeText h.left := by
  have htext : ∀ dimensions, ∀ c ∈ (h.equalsText ++ h.typeText dimensions).head?, isBlank c = false := by
    intro dimensions c hc
    unfold equalsText at hc
    cases hequals : h.equals with
    | some s =>
      rw [hequals] at hc
      obtain rfl := Option.some.inj hc
      rfl
    | none =>
      rw [hequals] at hc
      exact (head?_typeText dimensions c hc).1
  unfold back
  cases htypes : h.typeParameters with
  | some t =>
    have harray : ¬h.isArray = true := by simp [isArray_iff, htypes]
    have htrim : trimStart (t.gap ++ '[' :: (t.text ++ ']' ::
        (h.space ++ (h.equalsText ++ h.typeText h.dimensions)))) =
        '[' :: (t.text ++ ']' :: (h.space ++ (h.equalsText ++ h.typeText h.dimensions))) :=
      trimStart_append t.blank_gap (by rintro c ⟨⟩; rfl)
    have hclosed := skipBrackets_append (hplain.closed_typeParameters t htypes)
      (h.space ++ (h.equalsText ++ h.typeText h.dimensions))
    simp only [Option.map_some, Option.getD_some, List.append_assoc, List.cons_append,
      List.nil_append, htrim, hclosed, trimStart_append h.blank_space (htext _), Option.isSome_some,
      Bool.true_or, true_and]
    rw [left, if_neg harray]
  | none =>
    rw [Option.map_none, Option.getD_none, List.nil_append,
      trimStart_append h.blank_space (htext _), Option.isSome_none, Bool.false_or]
    by_cases harray : h.isArray = true
    · obtain ⟨-, hequals, hparens, hdims⟩ := isArray_iff.1 harray
      obtain ⟨d, ds, hcons⟩ := List.exists_cons_of_ne_nil hdims
      have hwritten : h.equalsText ++ h.typeText h.dimensions =
          '[' :: (d.length ++ ']' :: (d.gap ++ h.typeText ds)) := by
        simp [equalsText, typeText, hequals, hparens, hcons, Dimension.write]
      have hclosed : ']' ∉ d.length := hplain.closed_length d (by rw [hcons]; rfl)
      have hleft : h.left = ds := by rw [left, if_pos harray, hcons, List.tail_cons]
      have hnothing : h.equalsText = [] := by rw [equalsText, hequals]; rfl
      rw [hwritten, skipBrackets_append hclosed, harray, hleft, hnothing]
      exact ⟨rfl, trimStart_append d.blank_gap fun c hc => (head?_typeText ds c hc).1⟩
    · have hhead : (h.equalsText ++ h.typeText h.dimensions).head? ≠ some '[' := by
        unfold equalsText
        cases hequals : h.equals with
        | some s => exact fun heq => absurd (Option.some.inj heq) (by decide)
        | none =>
          unfold typeText
          cases hparens : h.parens with
          | cons s parens => exact fun heq => absurd (Option.some.inj heq) (by decide)
          | nil =>
            have hdims : h.dimensions = [] := by
              by_contra hdims
              exact harray (isArray_iff.2 ⟨htypes, hequals, hparens, hdims⟩)
            rw [hdims]
            cases h.base with
            | word w hw =>
              change (w ++ h.rest).head? ≠ _
              rw [List.head?_append_of_ne_nil _ hw.ne_nil]
              exact hw.head?_ne (by decide +kernel)
            | sign c hc =>
              intro heq
              rw [show c = '[' from Option.some.inj heq] at hc
              exact absurd hc (by decide)
      have hleft : h.left = h.dimensions := by rw [left, if_neg harray]
      rw [skipBrackets_of_head?_ne hhead, hleft, eq_false_of_ne_true harray]
      exact ⟨rfl, dropWhile_eq_self (htext _)⟩

/-- With an ASCII name, and no bracket that closes inside of brackets, the heading is read as it is
written, but for the first brackets. -/
theorem type?_write (hplain : h.IsPlain) : type? h.write =
    some ⟨h.name, h.typeParameters.isSome || h.isArray, typeWord (h.typeText h.left)⟩ := by
  obtain ⟨c, hc, hdigit⟩ := h.isIdentifier.1
  have hstart := isNameStart_of_isAsciiWord (hplain.isAscii c (List.mem_of_mem_head? hc)) hdigit
  have hname : takeName? (h.name ++ h.back) = some (h.name, h.back) :=
    takeName?_append ⟨c, hc, hstart⟩ hplain.isAscii head?_back
  obtain ⟨hbracketed, hafter⟩ := skipBrackets_back hplain
  have hkeyword : afterKeyword? ['t', 'y', 'p', 'e'] h.write = some (h.name ++ h.back) :=
    afterKeyword?_gap h.gap_ne_nil h.blank_gap (h.isIdentifier.head?_not_blank _)
  unfold type?
  rw [hkeyword, Option.bind_eq_bind, Option.bind_some, hname, Option.bind_eq_bind, Option.bind_some]
  dsimp only
  rw [hbracketed, hafter]
  unfold equalsText
  split
  · rename_i r heq
    have htrim : trimStart r = h.typeText h.left := by
      cases hequals : h.equals with
      | some s =>
        rw [hequals] at heq
        rw [← (List.cons.inj heq).2]
        exact trimStart_append (h.blank_equals s hequals) fun c hc => (head?_typeText _ c hc).1
      | none =>
        rw [hequals] at heq
        exact absurd rfl (head?_typeText h.left '=' (congrArg List.head? heq)).2
    rw [htrim]
  · rename_i hne
    cases hequals : h.equals with
    | some s => exact (hne _ (by rw [hequals]; rfl)).elim
    | none => rfl

end TypeHeading

/-- Where no word goes on behind it, a text of words begins with one or the other. -/
theorem prefix_append_iff {word s more : List Char} (hword : word.all isWordChar = true)
    (hmore : ∀ c ∈ more.head?, isWordChar c = false) : word <+: s ++ more ↔ word <+: s := by
  constructor
  · rintro ⟨t, ht⟩
    rcases List.append_eq_append_iff.1 ht with ⟨as, hs, -⟩ | ⟨as, hwordeq, hmoreeq⟩
    · exact ⟨as, hs.symm⟩
    · cases as with
      | nil => exact ⟨[], by simpa using hwordeq⟩
      | cons c as =>
        have hc := List.all_eq_true.1 hword c (hwordeq ▸ List.mem_append_right _ List.mem_cons_self)
        rw [hmore c (by rw [hmoreeq]; rfl)] at hc
        cases hc
  · exact fun h => h.trans (List.prefix_append s more)

/-- Only a word is told as anything but an alias. -/
theorem typeKind_of_head? {w : List Char} (h : ∀ c ∈ w.head?, c ≠ 's' ∧ c ≠ 'i') :
    typeKind w = .typeAlias := by
  rw [typeKind_eq_typeAlias_iff]
  rintro (⟨t, rfl⟩ | ⟨t, rfl⟩)
  · exact (h 's' rfl).1 rfl
  · exact (h 'i' rfl).2 rfl

/-- Of a word and what follows it up to a blank the word alone counts. -/
theorem typeKind_typeWord_append {w rest : List Char} (hw : IsIdentifier w)
    (hrest : ∀ c ∈ rest.head?, isWordChar c = false) :
    typeKind (typeWord (w ++ rest)) = typeKind w := by
  obtain ⟨c, r, rfl⟩ := List.exists_cons_of_ne_nil hw.ne_nil
  have hstart : isNameStart c = true ∨ typeKind (c :: r) = .typeAlias := by
    by_cases hc : c = 's' ∨ c = 'i'
    · rcases hc with rfl | rfl
      all_goals exact .inl rfl
    · obtain ⟨hs, hi⟩ := not_or.1 hc
      exact .inr (typeKind_of_head? (by rintro d ⟨⟩; exact ⟨hs, hi⟩))
  by_cases hname : isNameStart c = true
  · have hplain : ∀ d ∈ r, (!isBlank d) = true := by
      intro d hd
      rw [hw.not_blank d (List.mem_cons_of_mem c hd)]
      rfl
    have hmore : ∀ d ∈ (rest.takeWhile fun d => !isBlank d).head?, isWordChar d = false := by
      intro d hd
      cases rest with
      | nil => cases hd
      | cons e rest =>
        rw [List.takeWhile_cons] at hd
        split at hd
        · exact hrest d hd
        · cases hd
    have hstruct : structWord <+: (c :: r) ++ (rest.takeWhile fun d => !isBlank d) ↔
        structWord <+: c :: r := prefix_append_iff (by decide +kernel) hmore
    have hinterface : interfaceWord <+: (c :: r) ++ (rest.takeWhile fun d => !isBlank d) ↔
        interfaceWord <+: c :: r := prefix_append_iff (by decide +kernel) hmore
    rw [List.cons_append, typeWord, if_pos (by simp [hname]), List.takeWhile_append_of_pos hplain,
      ← List.cons_append, typeKind_eq, typeKind_eq]
    simp only [hstruct, hinterface]
  · have hstar : c ≠ '*' := by
      rintro rfl
      exact absurd (hw.2 _ List.mem_cons_self) (by decide +kernel)
    have hbracket : c ≠ '[' := by
      rintro rfl
      exact absurd (hw.2 _ List.mem_cons_self) (by decide +kernel)
    rw [List.cons_append, typeWord, if_neg (by simp [hname, hstar, hbracket]),
      hstart.resolve_left hname]
    rfl

namespace TypeHeading

variable {h : TypeHeading}

/-- What the survey takes the type for goes by the word that is seen. -/
theorem typeKind_typeWord : typeKind (typeWord (h.typeText h.left)) = typeKind h.seen := by
  have hsign : ∀ {c : Char} {r : List Char}, c ≠ 's' → c ≠ 'i' →
      typeKind (typeWord (c :: r)) = .typeAlias := by
    intro c r hs hi
    rw [typeWord]
    split
    · exact typeKind_of_head? (by rintro d ⟨⟩; exact ⟨hs, hi⟩)
    · rfl
  have hnothing : (h.parens = [] → h.left = [] → False) → typeKind h.seen = .typeAlias := by
    intro hne
    unfold seen
    cases h.base with
    | word w hw =>
      dsimp only
      rw [if_neg fun hand => hne hand.1 hand.2]
      rfl
    | sign c hc => rfl
  unfold typeText
  cases hparens : h.parens with
  | cons s parens =>
    rw [hnothing fun hnil => by rw [hparens] at hnil; cases hnil]
    exact hsign (by decide) (by decide)
  | nil =>
    cases hleft : h.left with
    | cons d left =>
      rw [hnothing fun _ hnil => by rw [hleft] at hnil; cases hnil]
      exact hsign (by decide) (by decide)
    | nil =>
      have hseen : h.seen = match h.base with | .word w _ => w | .sign _ _ => [] := by
        rw [seen, hparens, hleft]
        cases h.base with
        | word w hw => exact if_pos ⟨rfl, rfl⟩
        | sign c hc => rfl
      rw [hseen]
      cases hbase : h.base with
      | word w hw => exact typeKind_typeWord_append hw (h.whole w hw hbase)
      | sign c hc =>
        simp only [List.mem_cons, List.not_mem_nil, or_false] at hc
        rcases hc with rfl | rfl | rfl
        all_goals exact hsign (by decide) (by decide)

theorem lineKind_write (hplain : h.IsPlain) : lineKind false h.write =
    .type ⟨h.name, h.typeParameters.isSome || h.isArray, typeWord (h.typeText h.left)⟩ := by
  have htrim : trimStart h.write = h.write := dropWhile_eq_self (by rintro c ⟨⟩; rfl)
  have hhead : (trimStart h.write).head? ≠ some 'i' := by
    rw [htrim]
    exact fun heq => absurd (Option.some.inj heq) (by decide)
  have hopens : opensImports h.write = false := by
    rw [opensImports, dropFront?_of_head?_ne hhead]
  have himport : import? h.write = none := by
    rw [import?, afterKeyword?_of_head?_ne hhead]
    rfl
  rw [lineKind, hopens, himport, type?_write hplain]
  rfl

end TypeHeading

end CodeSurvey.Go
