-- The receivers of methods as they are written. A method is named after the type of its
-- receiver unless blanks stand in the list of that type's parameters: the survey takes the
-- last word of the receiver for its type.
import CodeSurvey.Proofs.Go.Heading
import CodeSurvey.Proofs.Text.Lines

namespace CodeSurvey.Go

open Text

/-! ## Written receivers -/

/-- Behind the first, the parameters of a type stand each after a comma, with the blanks after the
comma. -/
structure TypeParameters where
  first : List Char
  more : List (List Char × List Char)
  isIdentifier_first : IsIdentifier first
  isIdentifier_more : ∀ p ∈ more, allBlank p.1 = true ∧ IsIdentifier p.2

def TypeParameters.write (t : TypeParameters) : List Char :=
  '[' :: (t.first ++ t.more.flatMap (fun p => ',' :: (p.1 ++ p.2)) ++ [']'])

/-- No blank follows a comma of the list. -/
def TypeParameters.IsTight (t : TypeParameters) : Prop := ∀ p ∈ t.more, p.1 = []

instance (t : TypeParameters) : Decidable t.IsTight :=
  inferInstanceAs (Decidable (∀ p ∈ t.more, _))

/-- A receiver: perhaps a variable, with the blanks behind it, then a type or a pointer to one,
perhaps with parameters. -/
structure Receiver where
  variableName : Option (List Char × List Char)
  isPointer : Bool
  type : List Char
  parameters : Option TypeParameters
  isIdentifier_variable : ∀ v ∈ variableName, IsIdentifier v.1 ∧ v.2 ≠ [] ∧ allBlank v.2 = true
  isIdentifier_type : IsIdentifier type

namespace Receiver

/-- The type as it stands in the receiver. -/
def typeText (r : Receiver) : List Char :=
  (if r.isPointer then ['*'] else []) ++ r.type ++ (r.parameters.map (·.write)).getD []

def write (r : Receiver) : List Char :=
  (r.variableName.map fun v => v.1 ++ v.2).getD [] ++ r.typeText

def IsTight (r : Receiver) : Prop := ∀ t ∈ r.parameters, t.IsTight

instance (r : Receiver) : Decidable r.IsTight :=
  inferInstanceAs (Decidable (∀ t ∈ r.parameters, _))

end Receiver

/-! ## The last word -/

/-- A text that does not end in a blank has a last word, which ends as the text does. -/
theorem getLast?_words {s : List Char} {c : Char} (h : s.getLast? = some c)
    (hc : isBlank c = false) : ∃ w, (words s).getLast? = some w ∧ w.getLast? = some c := by
  obtain ⟨s, rfl⟩ := List.getLast?_eq_some_iff.1 h
  let back := (s.reverse.takeWhile fun d => !isBlank d).reverse
  let front := (s.reverse.dropWhile fun d => !isBlank d).reverse
  have hs : s = front ++ back := by
    rw [← List.reverse_inj, List.reverse_append, List.reverse_reverse, List.reverse_reverse]
    exact List.takeWhile_append_dropWhile.symm
  have hback : ∀ d ∈ back ++ [c], isBlank d = false := by
    intro d hd
    rcases List.mem_append.1 hd with hd | hd
    · simpa using List.mem_takeWhile_imp (List.mem_reverse.1 hd)
    · rwa [List.mem_singleton.1 hd]
  have hword : words (back ++ [c]) = [back ++ [c]] := words_of_not_blank (by simp) hback
  have hfront : ∀ d ∈ front.getLast?, isBlank d = true := by
    intro d hd
    rw [List.getLast?_reverse] at hd
    have := List.head?_dropWhile_not (fun d => !isBlank d) s.reverse
    rw [hd] at this
    simpa using this
  refine ⟨back ++ [c], ?_, by simp⟩
  rw [hs, List.append_assoc]
  rcases List.eq_nil_or_concat front with hnil | ⟨front', d, hconcat⟩
  · rw [hnil, List.nil_append, hword]
    rfl
  · rw [hconcat, List.concat_eq_append, List.append_assoc, List.singleton_append,
      words_append_cons (hfront d (by simp [hconcat])), hword, List.getLast?_append]
    rfl

/-! ## The name of a receiver -/

namespace TypeParameters

variable (t : TypeParameters)

/-- Of a list without blanks no character is one. -/
theorem not_blank_write (h : t.IsTight) : ∀ c ∈ t.write, isBlank c = false := by
  intro c hc
  simp only [write, List.mem_cons, List.mem_append, List.mem_flatMap, List.not_mem_nil, or_false]
    at hc
  rcases hc with rfl | (hc | ⟨p, hp, rfl | hc | hc⟩) | rfl
  · rfl
  · exact t.isIdentifier_first.not_blank c hc
  · rfl
  · rw [h p hp] at hc
    cases hc
  · exact (t.isIdentifier_more p hp).2.not_blank c hc
  · rfl

/-- Behind a blank of the list there is no bracket that opens, and at its end one that closes. -/
theorem exists_blank (h : ¬t.IsTight) : ∃ a c b, t.write = a ++ c :: b ∧ isBlank c = true ∧
    '[' ∉ b ∧ b.getLast? = some ']' := by
  unfold IsTight at h
  push Not at h
  obtain ⟨⟨gap, name⟩, hp, hgap⟩ := h
  obtain ⟨c, gap, rfl⟩ := List.exists_cons_of_ne_nil hgap
  obtain ⟨hblank, -⟩ := t.isIdentifier_more _ hp
  obtain ⟨hc, hrest⟩ := Bool.and_eq_true_iff.1 hblank
  obtain ⟨front, back, hmore⟩ := List.append_of_mem hp
  let b := gap ++ name ++ back.flatMap (fun p => ',' :: (p.1 ++ p.2)) ++ [']']
  refine ⟨'[' :: (t.first ++ front.flatMap (fun p => ',' :: (p.1 ++ p.2)) ++ [',']), c, b, ?_, hc, ?_,
    by simp [b]⟩
  · simp [write, hmore, b]
  · have hplain : ∀ p ∈ t.more, '[' ∉ p.1 ∧ '[' ∉ p.2 := by
      intro p hp
      obtain ⟨hblank, hname⟩ := t.isIdentifier_more p hp
      refine ⟨fun hmem => ?_, hname.not_mem (by decide +kernel)⟩
      exact Bool.false_ne_true (allBlank_iff.1 hblank _ hmem)
    intro hmem
    simp only [b, List.mem_append, List.mem_flatMap, List.mem_cons, List.not_mem_nil, or_false]
      at hmem
    rcases hmem with ((hmem | hmem) | ⟨p, hp, hmem | hmem | hmem⟩) | hmem
    · exact (hplain _ hp).1 (List.mem_cons_of_mem c hmem)
    · exact (hplain _ hp).2 hmem
    · cases hmem
    · exact (hplain p (by simp [hmore, hp])).1 hmem
    · exact (hplain p (by simp [hmore, hp])).2 hmem
    · cases hmem

end TypeParameters

namespace Receiver

variable (r : Receiver)

/-- The text of a type does not end in a blank. -/
theorem exists_getLast?_typeText : ∃ c, r.typeText.getLast? = some c ∧ isBlank c = false := by
  unfold typeText
  cases r.parameters with
  | none =>
    have hne := r.isIdentifier_type.ne_nil
    refine ⟨r.type.getLast hne, ?_, r.isIdentifier_type.not_blank _ (List.getLast_mem hne)⟩
    rw [Option.map_none, Option.getD_none, List.append_nil, List.getLast?_append_of_ne_nil _ hne,
      List.getLast?_eq_some_getLast hne]
  | some t =>
    refine ⟨']', ?_, rfl⟩
    have hlast : t.write.getLast? = some ']' := by
      rw [TypeParameters.write, ← List.cons_append, List.getLast?_append]
      rfl
    rw [Option.map_some, Option.getD_some, List.getLast?_append, hlast, Option.some_or]

/-- The last word of a receiver is that of its type. -/
theorem getLast?_words_write : (words r.write).getLast? = (words r.typeText).getLast? := by
  obtain ⟨c, hlast, hc⟩ := r.exists_getLast?_typeText
  obtain ⟨w, hw, -⟩ := getLast?_words hlast hc
  unfold write
  cases hvariable : r.variableName with
  | none => rfl
  | some v =>
    obtain ⟨-, hgap, hblank⟩ := r.isIdentifier_variable v hvariable
    rw [Option.map_some, Option.getD_some, words_append_append hgap hblank, List.getLast?_append,
      hw, Option.some_or]

/-- Without a blank in the list of parameters, a receiver names its type. -/
theorem receiverName_write (h : r.IsTight) : receiverName r.write = r.type := by
  have htype := r.isIdentifier_type
  have hplain : ∀ c ∈ r.typeText, isBlank c = false := by
    intro c hc
    simp only [typeText, List.mem_append] at hc
    rcases hc with (hc | hc) | hc
    · split at hc
      · rw [List.mem_singleton.1 hc]
        rfl
      · cases hc
    · exact htype.not_blank c hc
    · cases hparameters : r.parameters with
      | none =>
        rw [hparameters] at hc
        cases hc
      | some t =>
        rw [hparameters] at hc
        exact t.not_blank_write (h t hparameters) c hc
  have hword : words r.typeText = [r.typeText] :=
    words_of_not_blank (by simp [typeText, htype.ne_nil]) hplain
  have hstar : ∀ s : List Char, (r.type ++ s).dropWhile (· = '*') = r.type ++ s := by
    intro s
    refine dropWhile_eq_self fun c hc => ?_
    rw [List.head?_append_of_ne_nil _ htype.ne_nil] at hc
    have : c ≠ '*' := fun heq => htype.head?_ne (by decide +kernel) (heq ▸ hc)
    simpa using this
  have hdrop : r.typeText.dropWhile (· = '*') = r.type ++ (r.parameters.map (·.write)).getD [] := by
    unfold typeText
    rw [List.append_assoc]
    cases r.isPointer with
    | false => exact hstar _
    | true => simpa using hstar _
  have hbracket : '[' ∉ r.type := htype.not_mem (by decide +kernel)
  unfold receiverName
  rw [r.getLast?_words_write, hword]
  dsimp only [List.getLast?_singleton]
  rw [hdrop]
  cases r.parameters with
  | none => exact (List.append_nil r.type).symm ▸ before_of_not_mem hbracket
  | some t => exact (before_append_cons ..).trans (before_of_not_mem hbracket)

/-- With a blank in the list of parameters, what is taken for the name of the type ends in the
bracket that closes the list. -/
theorem receiverName_write_ne (h : ¬r.IsTight) : receiverName r.write ≠ r.type := by
  unfold IsTight at h
  push Not at h
  obtain ⟨t, ht, hloose⟩ := h
  -- The last word begins behind the last blank of the list, so no bracket opens in it, and nothing
  -- but stars is cut off.
  obtain ⟨a, c, b, hwrite, hc, hopen, hclose⟩ := t.exists_blank hloose
  obtain ⟨w, hw, hlast⟩ := getLast?_words hclose rfl
  have hwords : (words r.write).getLast? = some w := by
    have htext : r.typeText = (if r.isPointer then ['*'] else []) ++ r.type ++ a ++ c :: b := by
      unfold typeText
      rw [show r.parameters = some t from ht, Option.map_some, Option.getD_some, hwrite]
      simp
    rw [r.getLast?_words_write, htext, words_append_cons hc, List.getLast?_append, hw,
      Option.some_or]
  have hbracket : '[' ∉ w.dropWhile (· = '*') := fun hmem =>
    hopen ((mem_splitOnP (List.mem_of_mem_filter (List.mem_of_getLast? hw)) '['
      ((List.dropWhile_sublist _).subset hmem)).2)
  have hmem : ']' ∈ w.dropWhile (· = '*') := by
    obtain ⟨w, rfl⟩ := List.getLast?_eq_some_iff.1 hlast
    rw [List.dropWhile_append]
    split
    · simp
    · simp
  unfold receiverName
  rw [hwords]
  dsimp only
  rw [before_of_not_mem hbracket]
  intro heq
  rw [heq] at hmem
  exact r.isIdentifier_type.not_mem (by decide +kernel) hmem

end Receiver

/-! ## The method -/

theorem isExported_iff {name : List Char} :
    isExported name = true ↔ ∃ c ∈ name.head?, isUpper c = true := by
  unfold isExported
  cases name.head? <;> simp

/-- The fact is that of a method with the name, which its owner has; it is exported when both begin
with an upper-case letter. -/
structure TellsMethod (owner name : List Char) (f : Fact) : Prop where
  isMethod : f.kind = .method
  named : f.name = String.ofList (owner ++ '.' :: name)
  exported_iff : f.exported = true ↔
    (∃ c ∈ owner.head?, isUpper c = true) ∧ ∃ c ∈ name.head?, isUpper c = true

theorem Heading.tellsMethod {h : Heading} {receiver : List Char}
    (hreceiver : h.receiver.map (·.text) = some receiver) {docs : Bool} {p : Stop} {rest : List Char}
    (hkind : p.kind = .func (h.head rest)) :
    ∃ f, p.fact? docs = some f ∧ TellsMethod (receiverName receiver) h.name f := by
  have htell : p.tell docs =
      tellFunc (h.head rest) (p.line :: p.rest.take p.extra) p.before (p.doc docs) := by
    unfold Stop.tell
    rw [hkind]
  unfold Stop.fact?
  rw [htell, Heading.head, hreceiver]
  refine ⟨_, rfl, rfl, rfl, ?_⟩
  rw [← isExported_iff, ← isExported_iff, And.comm]
  exact Bool.and_eq_true_iff

/-- At a line to which the pass comes outside of a block of imports, and which begins as a method
does, the survey tells of that method, unless a character of its name is beyond ASCII. It is named
after the type of its receiver exactly when no blank stands in the list of that type's parameters,
and exported when what it is named after and its own name begin with upper-case letters. -/
theorem survey_method (docs : Bool) {source : String} {p : Stop} (hp : p ∈ stopsOf source)
    (hopen : p.inImports = false) {h : Heading} {rest : List Char} (hline : p.line = h.write ++ rest)
    {r : Receiver} (hreceiver : h.receiver.map (·.text) = some r.write) :
    if h.IsAscii then
      ∃ f ∈ (survey docs source).facts, p.fact? docs = some f ∧
        f.startLine = lineNumber p.before ∧
        ∃ owner, TellsMethod owner h.name f ∧ (owner = r.type ↔ r.IsTight)
    else p.fact? docs = none := by
  have hkind : p.kind = if h.IsAscii then .func (h.head rest) else .other := by
    rw [Stop.kind, hopen, hline, Heading.lineKind_write]
  split
  · rw [if_pos ‹_›] at hkind
    obtain ⟨f, hf, htells⟩ : ∃ f, p.fact? docs = some f ∧ TellsMethod (receiverName r.write) h.name f :=
      Heading.tellsMethod hreceiver hkind
    have hmem : f ∈ (survey docs source).facts := by
      rw [facts_survey]
      exact List.mem_filterMap.2 ⟨p, hp, hf⟩
    refine ⟨f, hmem, hf, (Stop.lines_fact hf).1, receiverName r.write, htells, ?_,
      r.receiverName_write⟩
    intro howner
    by_contra hloose
    exact r.receiverName_write_ne hloose howner
  · rw [if_neg ‹_›] at hkind
    unfold Stop.fact? Stop.tell
    rw [hkind]
    rfl

namespace Cached

/-- Two methods of a type with two parameters. In the second there is a blank behind the comma. -/
def source : String :=
  "func (c *cache[K,V]) Len() int \x7b return c.n \x7d\n" ++
    "func (c *cache[K, V]) Get(k K) V \x7b return c.m[k] \x7d\n"

def tight : TypeParameters where
  first := ['K']
  more := [([], ['V'])]
  isIdentifier_first := by decide +kernel
  isIdentifier_more := by decide +kernel

def loose : TypeParameters where
  first := ['K']
  more := [([' '], ['V'])]
  isIdentifier_first := by decide +kernel
  isIdentifier_more := by decide +kernel

/-- A pointer to the type, with the given parameters. -/
def receiver (t : TypeParameters) : Receiver where
  variableName := some (['c'], [' '])
  isPointer := true
  type := "cache".toList
  parameters := some t
  isIdentifier_variable := by decide +kernel
  isIdentifier_type := by decide +kernel

def heading (t : TypeParameters) (name : List Char) (isIdentifier : IsIdentifier name)
    (closed : ')' ∉ (receiver t).write) : Heading :=
  .spaced (some ⟨[' '], (receiver t).write, allBlank_space⟩) name isIdentifier
    (by rintro r ⟨⟩; exact closed)

def len : Heading := heading tight "Len".toList (by decide +kernel) (by decide +kernel)

def get : Heading := heading loose "Get".toList (by decide +kernel) (by decide +kernel)

end Cached

/-- The method whose receiver has no blank in the list is named after the type, which is not
exported. -/
theorem survey_method_of_tight_receiver :
    (∃ p ∈ stopsOf Cached.source, p.inImports = false ∧
      p.line = Cached.len.write ++ ") int \x7b return c.n \x7d".toList ∧
      Cached.len.receiver.map (·.text) = some (Cached.receiver Cached.tight).write ∧
      if Cached.len.IsAscii then
        ∃ f ∈ (survey true Cached.source).facts, p.fact? true = some f ∧
          f.startLine = lineNumber p.before ∧
          ∃ owner, TellsMethod owner Cached.len.name f ∧
            (owner = (Cached.receiver Cached.tight).type ↔ (Cached.receiver Cached.tight).IsTight)
      else p.fact? true = none) ∧
    Cached.len.IsAscii ∧ (Cached.receiver Cached.tight).IsTight := by
  have hreached : ∃ p ∈ stopsOf Cached.source, p.inImports = false ∧
      p.line = Cached.len.write ++ ") int \x7b return c.n \x7d".toList := by
    decide +kernel
  obtain ⟨p, hp, hopen, hline⟩ := hreached
  exact ⟨⟨p, hp, hopen, hline, rfl, survey_method true hp hopen hline rfl⟩, by decide +kernel,
    by decide +kernel⟩

/-- With a blank in the list the last parameter is taken for the type: the method has its name and
the bracket behind it, and is exported with a type that is not. -/
theorem not_named_after_type_of_blank :
    (∃ p ∈ stopsOf Cached.source, p.inImports = false ∧
      p.line = Cached.get.write ++ "k K) V \x7b return c.m[k] \x7d".toList) ∧
    Cached.get.receiver.map (·.text) = some (Cached.receiver Cached.loose).write ∧
    isExported (Cached.receiver Cached.loose).type = false ∧
    (survey true Cached.source).facts.map (fun f => (f.name, f.kind, f.exported)) =
      [("cache.Len", .method, false), ("V].Get", .method, true)] := by
  exact ⟨by decide +kernel, rfl, by decide +kernel, by decide +kernel⟩

end CodeSurvey.Go
