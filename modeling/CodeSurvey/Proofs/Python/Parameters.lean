-- Parameters as they are written, with blanks between their signs, and the reading of
-- a list of them: it finds the parameters that were written, in their order.
import CodeSurvey.Python.Header
import CodeSurvey.Proofs.Python.Header
import CodeSurvey.Proofs.Survey.Facts
import CodeSurvey.Proofs.Text.Blank
import CodeSurvey.Proofs.Text.Nested

namespace CodeSurvey.Python

open Text

/-! ## Texts of a list -/

/-- A blank is neither a quote mark nor a bracket, and no sign. -/
theorem plain_of_isBlank {c : Char} (h : isBlank c = true) :
    isMark c = false ∧ c ∉ [',', ':', '=', '#'] :=
  plain_of_kind h _ (by decide)

/-- A text of a list that both readers of brackets and quotes leave as they came to it, with no
comma outside. -/
structure IsPart (s : List Char) : Prop where
  level : IsLevel s
  headerLevel : IsHeaderLevel s
  whole : IsWhole ',' s

theorem IsPart.append {s t : List Char} (hs : IsPart s) (ht : IsPart t) : IsPart (s ++ t) :=
  ⟨hs.level.append ht.level, hs.headerLevel.append ht.headerLevel,
    hs.whole.append hs.level ht.whole⟩

theorem IsPart.of_plain {s : List Char} (h : ∀ c ∈ s, isMark c = false ∧ c ≠ ',') : IsPart s :=
  ⟨.of_not_mark fun c hc => (h c hc).1, .of_not_mark fun c hc => (h c hc).1,
    .of_not_mem fun hmem => (h _ hmem).2 rfl⟩

theorem IsPart.of_allBlank {s : List Char} (h : allBlank s = true) : IsPart s :=
  .of_plain fun c hc => (plain_of_isBlank (allBlank_iff.1 h c hc)).imp_right
    (List.ne_of_not_mem_cons ·)

/-- The text of a type has no arrow in front and no sign behind that the reader of types cuts
off. -/
def IsBareType (s : List Char) : Prop :=
  dropFront? ['-', '>'] s = none ∧ ∀ c ∈ s.getLast?, c ≠ ';' ∧ c ≠ ':' ∧ c ≠ '\x7b'

instance (s : List Char) : Decidable (IsBareType s) :=
  @instDecidableAnd _ _ _ (Option.decidableForallMem _)

/-- A type is read as it is written, without the blanks in front of it. -/
theorem typeText_of_bare {s front : List Char} (h : IsBareType s) (hne : s ≠ [])
    (hspaced : singleSpaced s = s) (hcolon : s.head? ≠ some ':') (hfront : allBlank front = true) :
    typeText (front ++ s) = some (String.ofList s) := by
  have hread := typeText_append hne (trim_of_singleSpaced hspaced) h.1 hcolon h.2 hfront
  rwa [hspaced] at hread

/-! ## One parameter -/

/-- The text after a sign, with the blanks before and after the sign. -/
structure Clause where
  before : List Char
  after : List Char
  text : List Char
  blank_before : allBlank before = true
  blank_after : allBlank after = true
  ne_nil : text ≠ []
  spaced : singleSpaced text = text
  part : IsPart text

def Clause.write (sign : Char) (c : Clause) : List Char :=
  c.before ++ sign :: (c.after ++ c.text)

/-- The name of a parameter: no blank, no mark and no sign of the list in it. -/
def IsPlainName (s : List Char) : Prop :=
  s ≠ [] ∧ ∀ c ∈ s, isBlank c = false ∧ isMark c = false ∧ c ∉ [',', ':', '=', '*', '/']

instance (s : List Char) : Decidable (IsPlainName s) :=
  @instDecidableAnd _ _ _ (List.decidableBAll _ _)

/-- A parameter as it is written: stars, a name, and perhaps a type and a value. -/
structure WrittenParameter where
  stars : Nat
  name : List Char
  type : Option Clause
  value : Option Clause
  plain : IsPlainName name
  typed : ∀ t ∈ type, IsBareType t.text ∧ IsWhole ':' t.text ∧ IsWhole '=' t.text

/-- A sign in front of a part leaves a part. -/
theorem Clause.isPart_write {sign : Char} (hsign : isMark sign = false ∧ sign ≠ ',') (c : Clause) :
    IsPart (c.write sign) := by
  have hafter : IsPart (sign :: c.after) := .of_plain fun x hx => by
    rcases List.mem_cons.1 hx with rfl | hx
    · exact hsign
    · exact (plain_of_isBlank (allBlank_iff.1 c.blank_after x hx)).imp_right
        (List.ne_of_not_mem_cons ·)
  exact (IsPart.of_allBlank c.blank_before).append (hafter.append c.part)

theorem isWhole_of_allBlank {sep : Char} {s : List Char} (hsep : isBlank sep = false)
    (h : allBlank s = true) : IsWhole sep s :=
  .of_not_mem fun hmem => by
    rw [allBlank_iff.1 h sep hmem] at hsep
    cases hsep

/-- A clause has a separator outside only when its text has one. -/
theorem Clause.isWhole_write {sep sign : Char} (c : Clause) (hsep : isBlank sep = false)
    (hsign : isMark sign = false ∧ sep ≠ sign) (h : IsWhole sep c.text) :
    IsWhole sep (c.write sign) := by
  have hlevel : IsLevel [sign] := .of_not_mark fun x hx => by
    rw [List.mem_singleton.1 hx]
    exact hsign.1
  have hwhole : IsWhole sep [sign] := .of_not_mem fun hmem => hsign.2 (List.mem_singleton.1 hmem)
  have hafter : IsWhole sep (c.after ++ c.text) :=
    (isWhole_of_allBlank hsep c.blank_after).append (IsPart.of_allBlank c.blank_after).level h
  exact (isWhole_of_allBlank hsep c.blank_before).append (IsPart.of_allBlank c.blank_before).level
    (hwhole.append hlevel hafter)

/-- A clause ends in its text. -/
theorem Clause.getLast?_write (sign : Char) (c : Clause) :
    (c.write sign).getLast? = c.text.getLast? := by
  rw [write, List.getLast?_append_of_ne_nil _ (by simp), ← List.cons_append,
    List.getLast?_append_of_ne_nil _ c.ne_nil]

/-- A text with no blank at its ends. -/
def IsTight (s : List Char) : Prop :=
  s ≠ [] ∧ (∀ c ∈ s.head?, isBlank c = false) ∧ ∀ c ∈ s.getLast?, isBlank c = false

theorem IsTight.trim_eq {s : List Char} (h : IsTight s) : trim s = s :=
  dropAroundWhile_eq_self h.2.1 h.2.2

theorem IsTight.append_clause {s : List Char} (h : IsTight s) {sign : Char} (c : Clause) :
    IsTight (s ++ c.write sign) := by
  obtain ⟨hne, hfirst, -⟩ := h
  refine ⟨by simp [hne], by rwa [List.head?_append_of_ne_nil _ hne], ?_⟩
  rw [List.getLast?_append_of_ne_nil _ (by simp [Clause.write]), c.getLast?_write]
  exact (ends_of_singleSpaced c.spaced).2

namespace WrittenParameter

variable (p : WrittenParameter)

/-- The name with its stars. -/
def front : List Char := List.replicate p.stars '*' ++ p.name

/-- What stands in front of the sign of the value. -/
def head : List Char := p.front ++ (p.type.map (·.write ':')).getD []

def write : List Char := p.head ++ (p.value.map (·.write '=')).getD []

/-- The parameter that is meant: its stars are no part of its name, and it may be left out exactly
when it has a value. -/
def told : Parameter where
  name := String.ofList p.name
  writtenType := p.type.map fun t => String.ofList t.text
  isOptional := p.value.isSome
  defaultValue := p.value.map fun v => String.ofList v.text

theorem plain_front {c : Char} (h : c ∈ p.front) :
    isBlank c = false ∧ isMark c = false ∧ c ≠ ',' ∧ c ≠ ':' ∧ c ≠ '=' := by
  rcases List.mem_append.1 h with h | h
  · rw [List.eq_of_mem_replicate h]
    decide
  · obtain ⟨hblank, hmark, hsign⟩ := p.plain.2 c h
    simp only [List.mem_cons, not_or] at hsign
    exact ⟨hblank, hmark, hsign.1, hsign.2.1, hsign.2.2.1⟩

theorem front_ne_nil : p.front ≠ [] := by
  simp [front, p.plain.1]

/-- The stars are cut off, and nothing of the name. -/
theorem dropWhile_front : p.front.dropWhile (· = '*') = p.name := by
  rw [front, List.dropWhile_append_of_pos fun c hc => by simp [List.eq_of_mem_replicate hc]]
  refine dropWhile_eq_self fun c hc => ?_
  have hsign := (p.plain.2 c (List.mem_of_mem_head? hc)).2.2
  simp only [List.mem_cons, not_or] at hsign
  simpa using hsign.2.2.2.1

theorem isPart_head : IsPart p.head := by
  have hfront : IsPart p.front := .of_plain fun c hc =>
    ⟨(p.plain_front hc).2.1, (p.plain_front hc).2.2.1⟩
  refine hfront.append ?_
  cases p.type with
  | none => exact .of_plain (by simp)
  | some t => exact t.isPart_write (by decide)

theorem isPart_write : IsPart p.write := by
  refine p.isPart_head.append ?_
  cases p.value with
  | none => exact .of_plain (by simp)
  | some v => exact v.isPart_write (by decide)

theorem isTight_front : IsTight p.front :=
  ⟨p.front_ne_nil, fun _ hc => (p.plain_front (List.mem_of_mem_head? hc)).1,
    fun _ hc => (p.plain_front (List.mem_of_mem_getLast? hc)).1⟩

theorem isTight_head : IsTight p.head := by
  unfold head
  cases p.type with
  | none => simpa using p.isTight_front
  | some t => exact p.isTight_front.append_clause t

theorem isTight_write : IsTight p.write := by
  unfold write
  cases p.value with
  | none => simpa using p.isTight_head
  | some v => exact p.isTight_head.append_clause v

/-- The head of a parameter has no sign of a value outside. -/
theorem isWhole_head : IsWhole '=' p.head := by
  have hfront : IsWhole '=' p.front := .of_not_mem fun hmem => (p.plain_front hmem).2.2.2.2 rfl
  have hlevel : IsLevel p.front := .of_not_mark fun c hc => (p.plain_front hc).2.1
  refine hfront.append hlevel ?_
  cases htype : p.type with
  | none => exact .nil
  | some t => exact t.isWhole_write (by decide) (by decide) (p.typed t htype).2.2

/-- The first sign of a value outside stands between the head and the value. -/
theorem splitOutside_write : ∃ head values, splitOutside '=' p.write = head :: values ∧
    trim head = p.head ∧ values.isEmpty = p.value.isNone ∧
      ∀ v ∈ p.value, singleSpaced (['='].intercalate values) = v.text := by
  cases hvalue : p.value with
  | none =>
    refine ⟨p.head, [], ?_, p.isTight_head.trim_eq, rfl, by simp⟩
    rw [write, hvalue, Option.map_none, Option.getD_none, List.append_nil]
    exact p.isWhole_head
  | some v =>
    refine ⟨p.head ++ v.before, splitOutside '=' (v.after ++ v.text), ?_, ?_, by
      rw [splitOutside_eq]; rfl, ?_⟩
    · have hbefore : IsWhole '=' (p.head ++ v.before) :=
        p.isWhole_head.append p.isPart_head.level (isWhole_of_allBlank (by decide) v.blank_before)
      have hlevel := p.isPart_head.level.append (IsPart.of_allBlank v.blank_before).level
      rw [write, hvalue, Option.map_some, Option.getD_some, Clause.write, ← List.append_assoc]
      exact splitOutside_append_cons hbefore hlevel (by decide) _
    · rw [trim_append_blank v.blank_before, p.isTight_head.trim_eq]
    · rintro v ⟨⟩
      rw [intercalate_splitOutside, singleSpaced_append_blank v.blank_after, v.spaced]

/-- The first colon outside stands between the name and the type. -/
theorem splitOutside_head : ∃ name types, splitOutside ':' p.head = name :: types ∧
    trim name = p.front ∧ types.head?.bind typeText = p.told.writtenType := by
  have hfront : IsWhole ':' p.front := .of_not_mem fun hmem => (p.plain_front hmem).2.2.2.1 rfl
  have hlevel : IsLevel p.front := .of_not_mark fun c hc => (p.plain_front hc).2.1
  cases htype : p.type with
  | none =>
    refine ⟨p.front, [], ?_, p.isTight_front.trim_eq, ?_⟩
    · rw [head, htype, Option.map_none, Option.getD_none, List.append_nil]
      exact hfront
    · simp only [told, htype, List.head?_nil, Option.bind_none, Option.map_none]
  | some t =>
    obtain ⟨hbare, hcolon, -⟩ := p.typed t htype
    have hafter : IsWhole ':' (t.after ++ t.text) :=
      (isWhole_of_allBlank (by decide) t.blank_after).append
        (IsPart.of_allBlank t.blank_after).level hcolon
    refine ⟨p.front ++ t.before, [t.after ++ t.text], ?_, ?_, ?_⟩
    · rw [head, htype, Option.map_some, Option.getD_some, Clause.write, ← List.append_assoc]
      rw [splitOutside_append_cons (hfront.append hlevel
        (isWhole_of_allBlank (by decide) t.blank_before))
        (hlevel.append (IsPart.of_allBlank t.blank_before).level) (by decide), hafter]
    · rw [trim_append_blank t.blank_before, p.isTight_front.trim_eq]
    · have htext := typeText_of_bare hbare t.ne_nil t.spaced (hcolon.head?_ne (by decide))
        t.blank_after
      simp only [told, htype, List.head?_cons, Option.bind_some, htext, Option.map_some]

/-- A written parameter is read as the one that is meant. -/
theorem parameterOf_write : parameterOf p.write = p.told := by
  obtain ⟨head, values, hwrite, htrim, hempty, hvalue⟩ := p.splitOutside_write
  obtain ⟨name, types, hhead, hname, htype⟩ := p.splitOutside_head
  have hdefault : (if values.isEmpty then none
      else some (String.ofList (singleSpaced (['='].intercalate values)))) =
        p.told.defaultValue := by
    rw [hempty, told]
    cases hv : p.value with
    | none => rfl
    | some v => rw [hvalue v hv]; rfl
  have hoptional : p.told.defaultValue.isSome = p.value.isSome := by simp [told]
  have hreads : parameterOf p.write = ⟨String.ofList p.name, types.head?.bind typeText,
      p.told.defaultValue.isSome, p.told.defaultValue⟩ := by
    unfold parameterOf
    rw [hwrite]
    dsimp only
    rw [htrim, hhead, hdefault]
    cases types <;> simp only [hname, p.dropWhile_front] <;> rfl
  rw [hreads, htype, hoptional]
  rfl

end WrittenParameter

/-! ## A list of parameters -/

/-- The parameter at a place of a list, unless that place is for a receiver and has one. -/
def parameterAt? (receives : Bool) (text : List Char) : Option Parameter :=
  if isSeparator text then none
  else if receives && isReceiver (parameterOf text) then none else some (parameterOf text)

theorem parametersOf_eq_filterMap (isMethod : Bool) (raw : List Char) : parametersOf isMethod raw =
    (((splitOutside ',' raw).map trim).zipIdx).filterMap
      fun place => parameterAt? (place.2 = 0 && isMethod) place.1 := by
  unfold parametersOf
  rw [List.filterMap_filter]
  refine List.filterMap_congr fun place _ => ?_
  cases hsep : isSeparator place.1 <;> simp [parameterAt?, hsep]

/-- The places of a list are read one by one; the first is for a receiver in a method. -/
theorem parametersOf_eq {isMethod : Bool} {raw first : List Char} {others : List (List Char)}
    (h : (splitOutside ',' raw).map trim = first :: others) : parametersOf isMethod raw =
      (parameterAt? isMethod first).toList ++ others.filterMap (parameterAt? false) := by
  have hothers : ∀ k, (others.zipIdx (k + 1)).filterMap
      (fun place => parameterAt? (place.2 = 0 && isMethod) place.1) =
        others.filterMap (parameterAt? false) := by
    clear h
    induction others with
    | nil => exact fun _ => rfl
    | cons text others ih =>
      intro k
      rw [List.zipIdx_cons, List.filterMap_cons, List.filterMap_cons, ih]
      rfl
  rw [parametersOf_eq_filterMap, h, List.zipIdx_cons, List.filterMap_cons, hothers]
  dsimp only
  rw [decide_eq_true rfl, Bool.true_and]
  cases parameterAt? isMethod first <;> rfl

/-- What stands at a place of a list: a parameter, or a mark between parameters. -/
inductive Item where
  | star
  | slash
  | parameter (p : WrittenParameter)

namespace Item

def write : Item → List Char
  | star => ['*']
  | slash => ['/']
  | parameter p => p.write

def told? : Item → Option Parameter
  | star | slash => none
  | parameter p => some p.told

theorem isPart_write : (item : Item) → IsPart item.write
  | star | slash => .of_plain (List.forall_mem_singleton.2 (by decide))
  | parameter p => p.isPart_write

theorem trim_write : (item : Item) → trim item.write = item.write
  | star | slash => by decide
  | parameter p => p.isTight_write.trim_eq

end Item

/-- A mark between parameters is none, and a parameter is read as the one that is meant. -/
theorem parameterAt?_write (receives : Bool) (item : Item) : parameterAt? receives item.write =
    item.told?.filter fun p => !(receives && isReceiver p) := by
  cases item with
  | star => rfl
  | slash => rfl
  | parameter p =>
    have hseparator : isSeparator p.write = false := by
      obtain ⟨c, hc⟩ := List.exists_mem_of_ne_nil _ p.plain.1
      have hsign := (p.plain.2 c hc).2.2
      have hmem : c ∈ p.write :=
        List.mem_append_left _ (List.mem_append_left _ (List.mem_append_right _ hc))
      simp only [List.mem_cons, not_or] at hsign
      have hstar : p.write ≠ ['*'] := fun heq => by simp [heq, hsign] at hmem
      have hslash : p.write ≠ ['/'] := fun heq => by simp [heq, hsign] at hmem
      simp [isSeparator, hstar, hslash, p.isTight_write.1]
    rw [Item.write, parameterAt?, hseparator, p.parameterOf_write]
    cases hdrop : receives && isReceiver p.told <;> simp [Item.told?, Option.filter, hdrop]

/-- A place of a list with the blanks around it. -/
structure Listed where
  before : List Char
  item : Item
  after : List Char
  blank_before : allBlank before = true
  blank_after : allBlank after = true

def Listed.write (l : Listed) : List Char := l.before ++ l.item.write ++ l.after

theorem Listed.isPart_write (l : Listed) : IsPart l.write :=
  ((IsPart.of_allBlank l.blank_before).append l.item.isPart_write).append
    (.of_allBlank l.blank_after)

theorem Listed.trim_write (l : Listed) : trim l.write = l.item.write := by
  rw [write, trim_append l.blank_before l.blank_after, l.item.trim_write]

/-- A list of parameters: its places, and the blanks after a comma at its end or in an empty
list. -/
structure WrittenList where
  places : List Listed
  ending : Option (List Char)
  blank_ending : ∀ e ∈ ending, allBlank e = true

namespace WrittenList

variable (l : WrittenList)

def parts : List (List Char) := l.places.map (·.write) ++ l.ending.toList

def write : List Char := [','].intercalate l.parts

/-- The parameters that are meant; in a method, a receiver at the first place is left out. -/
def told (isMethod : Bool) : List Parameter :=
  match l.places with
  | [] => []
  | first :: others =>
    (first.item.told?.filter fun p => !(isMethod && isReceiver p)).toList ++
      others.filterMap (·.item.told?)

theorem isPart_of_mem {part : List Char} (h : part ∈ l.parts) : IsPart part := by
  rcases List.mem_append.1 h with h | h
  · obtain ⟨place, -, rfl⟩ := List.mem_map.1 h
    exact place.isPart_write
  · exact .of_allBlank (l.blank_ending part (Option.mem_toList.1 h))

/-- The list leaves the reader of a header as it came to it. -/
theorem isHeaderLevel_write : IsHeaderLevel l.write := by
  have hjoined : ∀ {parts : List (List Char)}, (∀ part ∈ parts, IsPart part) →
      IsHeaderLevel ([','].intercalate parts) := by
    intro parts h
    induction parts with
    | nil => exact .nil
    | cons part parts ih =>
      obtain ⟨hpart, hparts⟩ := List.forall_mem_cons.1 h
      cases parts with
      | nil => rw [List.intercalate_singleton]; exact hpart.headerLevel
      | cons next parts =>
        rw [List.intercalate_cons_cons]
        exact (hpart.headerLevel.append (show IsHeaderLevel [','] by decide)).append (ih hparts)
  exact hjoined fun part h => l.isPart_of_mem h

/-- A written list is read as the parameters that are meant by it. -/
theorem parametersOf_write (isMethod : Bool) : parametersOf isMethod l.write = l.told isMethod := by
  have hending : ∀ e ∈ l.ending.toList, trim e = [] := fun e he =>
    trim_of_allBlank (l.blank_ending e (Option.mem_toList.1 he))
  cases hplaces : l.places with
  | nil =>
    have hblank : allBlank l.write = true := by
      rw [write, parts, hplaces]
      cases hend : l.ending with
      | none => rfl
      | some e => simpa using l.blank_ending e hend
    have hcut : splitOutside ',' l.write = [l.write] := isWhole_of_allBlank (by decide) hblank
    have htrim : (splitOutside ',' l.write).map trim = [[]] := by
      rw [hcut, List.map_singleton, trim_of_allBlank hblank]
    rw [parametersOf_eq htrim, told, hplaces]
    rfl
  | cons first others =>
    have hparts : l.parts = first.write :: (others.map (·.write) ++ l.ending.toList) := by
      rw [parts, hplaces, List.map_cons, List.cons_append]
    have hcut : splitOutside ',' l.write = l.parts :=
      splitOutside_intercalate (by rw [hparts]; exact List.cons_ne_nil _ _)
        (fun part h => ⟨(l.isPart_of_mem h).level, (l.isPart_of_mem h).whole⟩) (by decide)
    have htrim : (splitOutside ',' l.write).map trim = first.item.write ::
        (others.map (·.item.write) ++ l.ending.toList.map trim) := by
      rw [hcut, hparts]
      simp only [List.map_cons, List.map_append, List.map_map, Function.comp_def,
        Listed.trim_write]
    have hothers : (others.map (·.item.write)).filterMap (parameterAt? false) =
        others.filterMap (·.item.told?) := by
      rw [List.filterMap_map]
      refine List.filterMap_congr fun place _ => ?_
      rw [Function.comp_apply, parameterAt?_write]
      cases place.item.told? <;> rfl
    have hlast : (l.ending.toList.map trim).filterMap (parameterAt? false) = [] := by
      rw [List.filterMap_eq_nil_iff]
      intro text htext
      obtain ⟨e, he, rfl⟩ := List.mem_map.1 htext
      rw [hending e he]
      rfl
    rw [parametersOf_eq htrim, parameterAt?_write, List.filterMap_append, hothers, hlast,
      List.append_nil, told, hplaces]

end WrittenList

end CodeSurvey.Python
