-- The lists of imports as they are written: names between commas, a new name after some of them,
-- and blanks wherever they may stand. What is read from a list depends on its words alone.
import CodeSurvey.Proofs.Text.Lexemes
import CodeSurvey.Python.Scan

namespace CodeSurvey.Python

open Text

/-! ## Written lists -/

/-- Blanks, or nothing. -/
structure Blanks where
  text : List Char
  blank : allBlank text = true

/-- At least one blank. -/
structure Gap where
  text : List Char
  ne_nil : text ≠ []
  blank : allBlank text = true

/-- A name, with dots or without. All that counts is that nothing in it ends it. -/
structure ImportName where
  text : List Char
  ne_nil : text ≠ []
  plain : ∀ c ∈ text, isBlank c = false ∧ c ∉ [',', '(', ')', '#']

/-- The word `as` and the name after it. -/
structure NewName where
  before : Gap
  after : Gap
  name : ImportName

def NewName.text (n : NewName) : List Char :=
  n.before.text ++ ['a', 's'] ++ n.after.text ++ n.name.text

/-- One name of a list. -/
structure ImportItem where
  before : Blanks
  name : ImportName
  newName : Option NewName
  after : Blanks

namespace ImportItem

def text (i : ImportItem) : List Char :=
  i.before.text ++ (i.name.text ++ (i.newName.map NewName.text).getD []) ++ i.after.text

/-- The words of the item. -/
def words (i : ImportItem) : List (List Char) :=
  i.name.text :: (i.newName.map fun n => [['a', 's'], n.name.text]).getD []

/-- The import of the item, when it is a module. -/
def module (i : ImportItem) (line : UInt32) : Import :=
  { Import.plain (String.ofList i.name.text) line with
    namespaceName := i.newName.map fun n => String.ofList n.name.text }

end ImportItem

/-- The places of a list. A comma after the last item leaves one more place that is blank. -/
def places (items : List ImportItem) (ending : Option Blanks) : List (List Char) :=
  items.map (·.text) ++ (ending.map (·.text)).toList

def listText (items : List ImportItem) (ending : Option Blanks) : List Char :=
  [','].intercalate (places items ending)

/-! ## Signs -/

/-- The signs of a list. -/
def isListSign (c : Char) : Bool := c = ',' || c = '(' || c = ')'

theorem mem_of_isListSign {c : Char} (h : isListSign c = true) : c ∈ [',', '(', ')'] := by
  unfold isListSign at h
  simpa [or_assoc] using h

theorem not_blank_of_mark {c : Char} (h : c ∈ [',', '(', ')', '#']) : isBlank c = false := by
  simp only [List.mem_cons, List.not_mem_nil, or_false] at h
  rcases h with rfl | rfl | rfl | rfl <;> rfl

theorem not_mark_of_blank {c : Char} (h : isBlank c = true) : c ∉ [',', '(', ')', '#'] :=
  fun hmem => by simp [not_blank_of_mark hmem] at h

theorem isListSign_of_not_mark {c : Char} (h : c ∉ [',', '(', ')', '#']) :
    isListSign c = false := by
  simp only [List.mem_cons, not_or] at h
  simp [isListSign, h]

theorem signs_isListSign : Signs isListSign := fun _ h =>
  isListSign_of_not_mark (not_mark_of_blank h)

theorem Blanks.plain (b : Blanks) : ∀ c ∈ b.text, c ∉ [',', '(', ')', '#'] := fun c hc =>
  not_mark_of_blank (allBlank_iff.1 b.blank c hc)

theorem Gap.exists_cons (g : Gap) :
    ∃ c r, g.text = c :: r ∧ isBlank c = true ∧ allBlank r = true := by
  obtain ⟨c, r, hcons⟩ := List.exists_cons_of_ne_nil g.ne_nil
  have hblank := g.blank
  rw [hcons] at hblank
  exact ⟨c, r, hcons, Bool.and_eq_true_iff.1 hblank⟩

theorem Gap.plain (g : Gap) : ∀ c ∈ g.text, c ∉ [',', '(', ')', '#'] := fun c hc =>
  not_mark_of_blank (allBlank_iff.1 g.blank c hc)

theorem NewName.plain (n : NewName) : ∀ c ∈ n.text, c ∉ [',', '(', ')', '#'] := by
  intro c hc
  simp only [NewName.text, List.mem_append] at hc
  rcases hc with ((hc | hc) | hc) | hc
  · exact n.before.plain c hc
  · simp only [List.mem_cons, List.not_mem_nil, or_false] at hc
    rcases hc with rfl | rfl <;> decide
  · exact n.after.plain c hc
  · exact (n.name.plain c hc).2

namespace ImportItem

theorem plain (i : ImportItem) : ∀ c ∈ i.text, c ∉ [',', '(', ')', '#'] := by
  intro c hc
  simp only [ImportItem.text, List.mem_append] at hc
  rcases hc with (hc | hc | hc) | hc
  · exact i.before.plain c hc
  · exact (i.name.plain c hc).2
  · cases hnew : i.newName with
    | none => simp [hnew] at hc
    | some n =>
      rw [hnew] at hc
      exact n.plain c hc
  · exact i.after.plain c hc

theorem words_text (i : ImportItem) : Text.words i.text = i.words := by
  have hname : ∀ n : ImportName, Text.words n.text = [n.text] := fun n =>
    words_of_not_blank n.ne_nil fun c hc => (n.plain c hc).1
  have has : Text.words ['a', 's'] = [['a', 's']] := by decide
  rw [text, words_append_blanks i.after.blank, words_append_blank i.before.blank, words]
  cases i.newName with
  | none =>
    change Text.words (i.name.text ++ []) = _
    rw [List.append_nil, hname]
    rfl
  | some n =>
    change Text.words (i.name.text ++ (n.before.text ++ ['a', 's'] ++ n.after.text ++ n.name.text)) =
      i.name.text :: [['a', 's'], n.name.text]
    rw [← List.append_assoc, ← List.append_assoc, ← List.append_assoc,
      words_append_append n.after.ne_nil n.after.blank,
      words_append_append n.before.ne_nil n.before.blank, hname, hname, has]
    rfl

end ImportItem

theorem plain_of_mem_places {items : List ImportItem} {ending : Option Blanks} {place : List Char}
    (h : place ∈ places items ending) : ∀ c ∈ place, c ∉ [',', '(', ')', '#'] := by
  rcases List.mem_append.1 h with h | h
  · obtain ⟨i, -, rfl⟩ := List.mem_map.1 h
    exact i.plain
  · obtain ⟨b, -, rfl⟩ := Option.map_eq_some_iff.1 (Option.mem_toList.1 h)
    exact b.plain

theorem places_ne_nil {items : List ImportItem} (hne : items ≠ []) (ending : Option Blanks) :
    places items ending ≠ [] := by
  unfold places
  simp [hne]

/-- A list has commas, but neither parentheses nor a comment. -/
theorem plain_listText (items : List ImportItem) (ending : Option Blanks) :
    ∀ c ∈ listText items ending, c ∉ ['(', ')', '#'] :=
  forall_mem_intercalate (by simp) fun _ hplace c hc hmem =>
    plain_of_mem_places hplace c hc (List.mem_cons_of_mem _ hmem)

/-- There is a name in a list. -/
theorem allBlank_listText {items : List ImportItem} (hne : items ≠ []) (ending : Option Blanks) :
    allBlank (listText items ending) = false := by
  obtain ⟨i, items, rfl⟩ := List.exists_cons_of_ne_nil hne
  obtain ⟨c, name, hname⟩ := List.exists_cons_of_ne_nil i.name.ne_nil
  have hc : c ∈ i.name.text := hname ▸ List.mem_cons_self
  have hitem : c ∈ i.text := by simp [ImportItem.text, hc]
  have hplace : i.text ∈ places (i :: items) ending := by simp [places]
  by_contra hblank
  rw [Bool.not_eq_false, allBlank_iff] at hblank
  have := hblank c (mem_intercalate_of_mem [','] hplace hitem)
  rw [(i.name.plain c hc).1] at this
  cases this

/-! ## What is read from a list -/

section Read

variable {items : List ImportItem} {ending : Option Blanks} {list : List Char}

/-- A text with the lexemes of a list has the places of that list, but for blanks. -/
theorem map_words_of_lexemes (hne : items ≠ []) (hparens : ∀ c ∈ list, c ∉ ['(', ')'])
    (h : lexemes isListSign list = lexemes isListSign (listText items ending)) :
    (list.splitOn ',').map words = (places items ending).map words := by
  have hcomma : ∀ {s : List Char}, (∀ c ∈ s, c ∉ ['(', ')']) →
      ∀ c ∈ s, isListSign c = true → c = ',' := by
    intro s hs c hc hsign
    exact (List.mem_cons.1 (mem_of_isListSign hsign)).resolve_right (hs c hc)
  have hlist : ∀ c ∈ listText items ending, c ∉ ['(', ')'] := fun c hc hmem =>
    plain_listText items ending c hc (List.mem_append_left ['#'] hmem)
  have hplaces : ∀ place ∈ places items ending, ',' ∉ place := fun place hplace hmem =>
    plain_of_mem_places hplace ',' hmem (by decide)
  rw [map_words_splitOn rfl rfl (hcomma hparens), h, ← map_words_splitOn rfl rfl (hcomma hlist),
    listText, List.splitOn_intercalate ',' hplaces (places_ne_nil hne ending)]

theorem map_words_places (items : List ImportItem) (ending : Option Blanks) :
    (places items ending).map words = items.map (·.words) ++ (ending.map fun _ => []).toList := by
  unfold places
  rw [List.map_append, List.map_map]
  congr 1
  · exact List.map_congr_left fun i _ => i.words_text
  · cases ending with
    | none => rfl
    | some b => exact congrArg ([·]) (words_of_allBlank b.blank)

/-- The import that the words between two commas give. -/
def moduleOf? (line : UInt32) : List (List Char) → Option Import
  | [] => none
  | source :: ['a', 's'] :: newName :: _ =>
    some { Import.plain (String.ofList source) line with
      namespaceName := some (String.ofList newName) }
  | source :: _ => some (Import.plain (String.ofList source) line)

theorem modulesOf_eq (list : List Char) (line : UInt32) :
    modulesOf list line = ((list.splitOn ',').map words).filterMap (moduleOf? line) := by
  rw [modulesOf, List.filterMap_map]
  rfl

theorem ImportItem.moduleOf?_words (i : ImportItem) (line : UInt32) :
    moduleOf? line i.words = some (i.module line) := by
  unfold ImportItem.words ImportItem.module
  cases i.newName <;> rfl

/-- A list of modules gives an import of each. -/
theorem modulesOf_of_lexemes (hne : items ≠ []) (hparens : ∀ c ∈ list, c ∉ ['(', ')'])
    (h : lexemes isListSign list = lexemes isListSign (listText items none)) (line : UInt32) :
    modulesOf list line = items.map (·.module line) := by
  rw [modulesOf_eq, map_words_of_lexemes hne hparens h, map_words_places, Option.map_none,
    Option.toList_none, List.append_nil, List.filterMap_map, ← List.filterMap_eq_map]
  exact List.filterMap_congr fun i _ => i.moduleOf?_words line

/-- What is cut off at the ends of a list of names. -/
def isListEdge (c : Char) : Bool := c = '(' || c = ')' || c = ' '

theorem namesOf_eq (names : List Char) : namesOf names =
    let firsts := (((dropAroundWhile isListEdge names).splitOn ',').map words).filterMap List.head?
    ((firsts.map (dropAroundWhile fun c => c = '(' || c = ')')).filter (!·.isEmpty)).map
      String.ofList := by
  dsimp only
  rw [List.filterMap_map]
  rfl

/-- A name has no parentheses to drop. -/
theorem ImportName.dropAroundWhile_text (n : ImportName) :
    dropAroundWhile (fun c => c = '(' || c = ')') n.text = n.text := by
  have hnot : ∀ c ∈ n.text, (decide (c = '(') || decide (c = ')')) = false := by
    intro c hc
    have := (n.plain c hc).2
    simp only [List.mem_cons, List.not_mem_nil, or_false, not_or] at this
    simp [this]
  exact dropAroundWhile_eq_self (fun c hc => hnot c (List.mem_of_mem_head? hc))
    fun c hc => hnot c (List.mem_of_mem_getLast? hc)

theorem filterMap_head?_places (items : List ImportItem) (ending : Option Blanks) :
    ((places items ending).map words).filterMap List.head? = items.map (·.name.text) := by
  have hending : (ending.map fun _ => ([] : List (List Char))).toList.filterMap List.head? = [] := by
    cases ending <;> rfl
  rw [map_words_places, List.filterMap_append, List.filterMap_map, hending, List.append_nil,
    ← List.filterMap_eq_map]
  rfl

/-- A list of names gives the first word of each item. -/
theorem namesOf_of_lexemes {names : List Char} (hne : items ≠ [])
    (hparens : ∀ c ∈ list, c ∉ ['(', ')'])
    (hnames : dropAroundWhile isListEdge names = dropAroundWhile isListEdge list)
    (h : lexemes isListSign list = lexemes isListSign (listText items ending)) :
    namesOf names = items.map fun i => String.ofList i.name.text := by
  -- Of the edges only spaces are in the list.
  obtain ⟨front, back, hfront, hback, hlist⟩ := exists_dropAroundWhile isListEdge list
  have hblank : ∀ {s : List Char}, (∀ c ∈ s, isListEdge c = true) → (∀ c ∈ s, c ∈ list) →
      allBlank s = true := by
    intro s hedge hmem
    rw [allBlank_iff]
    intro c hc
    have hnot := hparens c (hmem c hc)
    have hc := hedge c hc
    simp only [List.mem_cons, List.not_mem_nil, or_false, not_or] at hnot
    obtain rfl : c = ' ' := by simpa [isListEdge, hnot] using hc
    rfl
  have hinner : lexemes isListSign (dropAroundWhile isListEdge list) =
      lexemes isListSign (listText items ending) := by
    rw [← h]
    conv_rhs => rw [hlist]
    rw [lexemes_append_append signs_isListSign
      (hblank hfront fun c hc => hlist ▸ by simp [hc]) (hblank hback fun c hc => hlist ▸ by simp [hc])]
  have hwhole : (items.map (·.name.text)).map (dropAroundWhile fun c => c = '(' || c = ')') =
      items.map (·.name.text) := by
    rw [List.map_map]
    exact List.map_congr_left fun i _ => i.name.dropAroundWhile_text
  rw [namesOf_eq, hnames]
  dsimp only
  rw [map_words_of_lexemes hne (fun c hc => hparens c (mem_dropAroundWhile hc)) hinner,
    filterMap_head?_places, hwhole, List.filter_eq_self.2, List.map_map]
  · rfl
  · intro name hname
    obtain ⟨i, -, rfl⟩ := List.mem_map.1 hname
    simp [i.name.ne_nil]

end Read

end CodeSurvey.Python
