-- Files that hold imports alone. However their lists are laid out, over however many lines and with
-- whatever comments, the survey gives the modules and names that are written there, and no more.
import CodeSurvey.Proofs.Python.Comment
import CodeSurvey.Proofs.Python.ImportList
import CodeSurvey.Proofs.Survey.Facts

namespace CodeSurvey.Python

open Text

/-! ## Comments at the end of a line -/

variable {s t : List Char}

theorem onlyComment_cons (c : Char) (s : List Char) :
    onlyComment (c :: s) = if isBlank c then onlyComment s else decide (c = '#') := by
  unfold onlyComment trimStart
  rw [List.dropWhile_cons]
  by_cases hc : isBlank c = true
  · rw [if_pos hc, if_pos hc]
  · rw [if_neg hc, if_neg hc]

/-- Before a comment, only blanks are taken for a part of it. -/
theorem onlyComment_append (hs : '#' ∉ s) (ht : onlyComment t = true) :
    onlyComment (s ++ t) = allBlank s := by
  induction s with
  | nil => exact ht
  | cons c s ih =>
    rw [List.mem_cons, not_or] at hs
    rw [List.cons_append, onlyComment_cons, ih hs.2]
    cases hc : isBlank c with
    | true => simp [allBlank, hc]
    | false => simp [allBlank, hc, Ne.symm hs.1]

/-- The comment at the end of a line is cut off with the blanks before it. -/
theorem beforeComment_append (hs : '#' ∉ s) (hblank : allBlank s = false)
    (ht : onlyComment t = true) : beforeComment (s ++ t) = trimEnd s := by
  induction s with
  | nil => cases hblank
  | cons c s ih =>
    have hs := (not_or.1 (List.mem_cons.not.1 hs)).2
    rw [List.cons_append, beforeComment, onlyComment_append hs ht]
    cases hrest : allBlank s with
    | true =>
      have hc : isBlank c = false := by
        rw [allBlank, List.all_cons, ← allBlank, hrest, Bool.and_true] at hblank
        exact hblank
      rw [if_pos rfl, trimEnd_cons_of_allBlank hc hrest]
    | false => rw [if_neg Bool.false_ne_true, ih hs hrest, trimEnd_cons c hrest]

/-- The text before the comment sign of a line. -/
theorem exists_before_comment (hs : '#' ∉ s) (ht : onlyComment t = true) :
    ∃ back, allBlank back = true ∧ Text.before ['#'] (s ++ t) = s ++ back := by
  have hhash : ∀ {d : Char}, d ≠ '#' → (!('#' == d)) = true := fun hd => by simpa using Ne.symm hd
  rw [before_singleton, List.takeWhile_append_of_pos fun d hd => hhash fun h => hs (h ▸ hd)]
  refine ⟨t.takeWhile fun d => !('#' == d), ?_, rfl⟩
  clear hs
  induction t with
  | nil => rfl
  | cons c t ih =>
    rw [onlyComment_cons] at ht
    rw [List.takeWhile_cons]
    cases hc : isBlank c with
    | true =>
      rw [hc, if_pos rfl] at ht
      split
      · exact Bool.and_eq_true_iff.2 ⟨hc, ih ht⟩
      · rfl
    | false =>
      rw [hc, if_neg Bool.false_ne_true] at ht
      obtain rfl : c = '#' := of_decide_eq_true ht
      rfl

/-! ## Written lines -/

/-- What may stand after the code of a line: blanks, and a comment of any text. -/
structure Tail where
  text : List Char
  only : onlyComment text = true

/-- A line, or the end of one, that belongs to an import. -/
structure WrittenLine where
  code : List Char
  tail : Tail

def WrittenLine.text (l : WrittenLine) : List Char := l.code ++ l.tail.text

/-- What stands after the word `import` is read without the comment. -/
theorem listed?_append (gap : Gap) {list : List Char} (tail : Tail) (hlist : '#' ∉ list)
    (hblank : allBlank list = false) :
    listed? ['i', 'm', 'p', 'o', 'r', 't']
      (['i', 'm', 'p', 'o', 'r', 't'] ++ gap.text ++ list ++ tail.text) = some (trim list) := by
  obtain ⟨c, r, hcons, hc, hr⟩ := gap.exists_cons
  have hkept : trimStart list ≠ [] := fun hnil => by
    rw [← allBlank_trimStart, hnil] at hblank
    cases hblank
  have htrim : trimStart (r ++ list ++ tail.text) = trimStart list ++ tail.text := by
    rw [List.append_assoc, trimStart, List.dropWhile_append_of_pos (allBlank_iff.1 hr)]
    exact trimStart_append_of_ne_nil hkept tail.text
  have hsome : allBlank (r ++ list ++ tail.text) = false := by
    rw [← allBlank_trimStart, htrim]
    exact allBlank_append_of_false ((allBlank_trimStart list).trans hblank) tail.text
  have hfront : dropFront? ['i', 'm', 'p', 'o', 'r', 't']
      (['i', 'm', 'p', 'o', 'r', 't'] ++ gap.text ++ list ++ tail.text) =
        some (c :: (r ++ list ++ tail.text)) :=
    dropFront?_eq_some_iff.2 (by simp [hcons])
  unfold listed?
  rw [hfront]
  dsimp only
  have hbefore : beforeComment (trimStart list ++ tail.text) = trim list :=
    beforeComment_append (fun h => hlist ((List.dropWhile_sublist _).subset h))
      ((allBlank_trimStart list).trans hblank) tail.only
  rw [hc, hsome, htrim, hbefore]
  rfl

/-! ## Statements -/

/-- An import of whole modules, on one line. -/
structure ModulesImport where
  indent : Blanks
  gap : Gap
  items : List ImportItem
  ne_nil : items ≠ []
  tail : Tail

def ModulesImport.line (s : ModulesImport) : List Char :=
  s.indent.text ++
    (['i', 'm', 'p', 'o', 'r', 't'] ++ s.gap.text ++ listText s.items none ++ s.tail.text)

/-- A list of names stands alone, or in parentheses and perhaps with a comma at its end. -/
inductive ListForm where
  | bare
  | inParens (ending : Option Blanks)

def ListForm.text (items : List ImportItem) : ListForm → List Char
  | .bare => listText items none
  | .inParens ending => '(' :: (listText items ending ++ [')'])

/-- An import of names from a module. Only a list in parentheses goes on over more lines than the
first, broken where blanks may stand. -/
structure NamesImport where
  indent : Blanks
  afterFrom : Gap
  source : List Char
  source_ne_nil : source ≠ []
  source_plain : ∀ c ∈ source, isModuleChar c = true
  afterSource : Gap
  afterImport : Gap
  items : List ImportItem
  ne_nil : items ≠ []
  form : ListForm
  first : WrittenLine
  more : List WrittenLine
  written : ['\n'].intercalate ((first :: more).map (·.code)) = form.text items
  alone : form = .bare → more = []

namespace NamesImport

/-- The line that begins the import. -/
def line (s : NamesImport) : List Char :=
  s.indent.text ++ (['f', 'r', 'o', 'm'] ++ s.afterFrom.text ++ (s.source ++ (s.afterSource.text ++
    (['i', 'm', 'p', 'o', 'r', 't'] ++ s.afterImport.text ++ s.first.code ++ s.first.tail.text))))

/-- The parts of the list on the lines. -/
def codes (s : NamesImport) : List (List Char) := (s.first :: s.more).map (·.code)

end NamesImport

/-! ## The line that begins an import -/

theorem not_blank_of_isModuleChar {c : Char} (h : isModuleChar c = true) : isBlank c = false := by
  unfold isModuleChar at h
  rcases Bool.or_eq_true_iff.1 h with h | h
  · exact (plain_of_isAsciiWord h).1
  · obtain rfl : c = '.' := of_decide_eq_true h
    rfl

theorem ModulesImport.lineKind_line (s : ModulesImport) :
    lineKind s.line = .modules (trim (listText s.items none)) := by
  have htrim : trimStart s.line =
      ['i', 'm', 'p', 'o', 'r', 't'] ++ s.gap.text ++ listText s.items none ++ s.tail.text :=
    trimStart_append s.indent.blank (by rintro c ⟨⟩; rfl)
  have hdecorator : isDecorator s.line = false := by
    rw [isDecorator, htrim]
    rfl
  have hfrom : fromImport? s.line = none := by
    rw [fromImport?, htrim]
    rfl
  have himport : import? s.line = some (trim (listText s.items none)) := by
    rw [import?, htrim]
    exact listed?_append s.gap s.tail
      (fun h => plain_listText s.items none '#' h (by decide)) (allBlank_listText s.ne_nil none)
  rw [lineKind, hdecorator, hfrom, himport]
  rfl

namespace NamesImport

variable (s : NamesImport)

theorem hash_not_mem_codes {code : List Char} (h : code ∈ s.codes) : '#' ∉ code := by
  intro hmem
  have hmem := mem_intercalate_of_mem ['\n'] h hmem
  rw [codes, s.written] at hmem
  cases hform : s.form with
  | bare =>
    rw [hform] at hmem
    exact plain_listText _ _ '#' hmem (by decide)
  | inParens ending =>
    have hlist : '#' ∈ listText s.items ending := by simpa [hform, ListForm.text] using hmem
    exact plain_listText _ _ '#' hlist (by decide)

/-- A list in parentheses begins with one on the first line. -/
theorem first_inParens {ending : Option Blanks} (h : s.form = .inParens ending) :
    ∃ code, s.first.code = '(' :: code := by
  have hwritten := s.written
  rw [h] at hwritten
  exact prefix_of_joined (a := ['(']) hwritten (by decide)

theorem first_bare (h : s.form = .bare) : s.first.code = listText s.items none := by
  have hwritten := s.written
  rw [h, s.alone h] at hwritten
  simpa [ListForm.text] using hwritten

theorem allBlank_first : allBlank s.first.code = false := by
  cases hform : s.form with
  | bare =>
    rw [s.first_bare hform]
    exact allBlank_listText s.ne_nil none
  | inParens ending =>
    obtain ⟨code, hcode⟩ := s.first_inParens hform
    rw [hcode]
    rfl

theorem fromImport?_line : fromImport? s.line = some (s.source, trim s.first.code) := by
  obtain ⟨a, as, hfrom, ha, has⟩ := s.afterFrom.exists_cons
  obtain ⟨b, bs, hsource, hb, hbs⟩ := s.afterSource.exists_cons
  let last := ['i', 'm', 'p', 'o', 'r', 't'] ++ s.afterImport.text ++ s.first.code ++ s.first.tail.text
  let rest := s.source ++ (s.afterSource.text ++ last)
  have hblank : isModuleChar b = false := by
    by_contra hchar
    rw [not_blank_of_isModuleChar (Bool.not_eq_false _ ▸ hchar)] at hb
    cases hb
  have hkeyword : afterKeyword? ['f', 'r', 'o', 'm'] (trimStart s.line) = some rest := by
    have htrim : trimStart s.line = ['f', 'r', 'o', 'm'] ++ s.afterFrom.text ++ rest :=
      trimStart_append s.indent.blank (by rintro c ⟨⟩; rfl)
    refine afterKeyword?_eq_some_iff.2 ⟨a, as ++ rest, by rw [htrim, hfrom]; simp, ha, ?_⟩
    refine trimStart_append has fun c hc => ?_
    rw [List.head?_append_of_ne_nil _ s.source_ne_nil] at hc
    exact not_blank_of_isModuleChar (s.source_plain c (List.mem_of_mem_head? hc))
  have htake : rest.takeWhile isModuleChar = s.source := by
    rw [List.takeWhile_append_of_pos s.source_plain, hsource, List.cons_append,
      List.takeWhile_cons_of_neg (by simp [hblank]), List.append_nil]
  have hdrop : rest.dropWhile isModuleChar = s.afterSource.text ++ last := by
    rw [List.dropWhile_append_of_pos s.source_plain, hsource, List.cons_append,
      List.dropWhile_cons_of_neg (by simp [hblank])]
  have htrim : trimStart (s.afterSource.text ++ last) = last :=
    trimStart_append s.afterSource.blank (by rintro c ⟨⟩; rfl)
  have hgap : (s.source.isEmpty || last == s.afterSource.text ++ last) = false := by
    rw [Bool.or_eq_false_iff]
    refine ⟨by simpa using s.source_ne_nil, ?_⟩
    rw [beq_eq_false_iff_ne]
    exact fun heq => s.afterSource.ne_nil (List.self_eq_append_left.1 heq)
  have hlisted := listed?_append s.afterImport s.first.tail
    (s.hash_not_mem_codes List.mem_cons_self) s.allBlank_first
  unfold fromImport?
  rw [hkeyword]
  simp only [Option.bind_eq_bind, Option.bind_some, htake, hdrop, htrim, hgap, hlisted,
    Bool.false_eq_true, if_false, last]

theorem lineKind_line : lineKind s.line = .fromModule s.source (trim s.first.code) := by
  have htrim : ∃ text, trimStart s.line = 'f' :: text :=
    ⟨_, trimStart_append s.indent.blank (by rintro c ⟨⟩; rfl)⟩
  obtain ⟨text, htrim⟩ := htrim
  have hdecorator : isDecorator s.line = false := by
    rw [isDecorator, htrim]
    rfl
  rw [lineKind, hdecorator, s.fromImport?_line]
  rfl

end NamesImport

/-! ## The lines over which a list runs on -/

/-- The parts of a list, each without blanks at its ends and with one space between each two. -/
def spaced (codes : List (List Char)) : List Char := [' '].intercalate (codes.map trim)

theorem spaced_cons_cons (first second : List Char) (codes : List (List Char)) :
    spaced (first :: second :: codes) = trim first ++ ' ' :: spaced (second :: codes) := by
  simp only [spaced, List.map_cons, List.intercalate_cons_cons, List.append_assoc,
    List.singleton_append]

theorem spaced_cons (first : List Char) (codes : List (List Char)) :
    spaced (first :: codes) = trim first ++ codes.flatMap (' ' :: trim ·) := by
  induction codes generalizing first with
  | nil => simp [spaced]
  | cons second codes ih => rw [spaced_cons_cons, ih, List.flatMap_cons, List.cons_append]

theorem joined_cons_cons (first second : List Char) (codes : List (List Char)) :
    ['\n'].intercalate (first :: second :: codes) =
      first ++ '\n' :: ['\n'].intercalate (second :: codes) := by
  rw [List.intercalate_cons_cons, List.append_assoc, List.singleton_append]

/-- The lexemes of a list are those of its lines. -/
theorem lexemes_spaced (codes : List (List Char)) :
    lexemes isListSign (spaced codes) = lexemes isListSign (['\n'].intercalate codes) := by
  induction codes with
  | nil => rfl
  | cons first codes ih =>
    cases codes with
    | nil => simpa [spaced] using lexemes_trim signs_isListSign first
    | cons second codes =>
      rw [spaced_cons_cons, joined_cons_cons, lexemes_append_blank rfl rfl,
        lexemes_append_blank rfl rfl, lexemes_trim signs_isListSign, ih]

theorem count_spaced {c : Char} (h : isBlank c = false) (codes : List (List Char)) :
    (spaced codes).count c = (['\n'].intercalate codes).count c := by
  have hnot : ∀ {d : Char}, isBlank d = true → d ≠ c := by
    rintro d hd rfl
    rw [hd] at h
    cases h
  induction codes with
  | nil => rfl
  | cons first codes ih =>
    cases codes with
    | nil => simpa [spaced] using count_trim h first
    | cons second codes =>
      rw [spaced_cons_cons, joined_cons_cons, List.count_append, List.count_append,
        List.count_cons_of_ne (hnot rfl), List.count_cons_of_ne (hnot rfl), count_trim h, ih]

theorem getLast?_spaced {c : Char} (hc : isBlank c = false) {codes : List (List Char)}
    (h : (['\n'].intercalate codes).getLast? = some c) : (spaced codes).getLast? = some c := by
  induction codes with
  | nil => cases h
  | cons first codes ih =>
    cases codes with
    | nil => simpa [spaced] using getLast?_trim hc (by simpa using h)
    | cons second codes =>
      rw [joined_cons_cons, List.getLast?_append_cons] at h
      rw [spaced_cons_cons, List.getLast?_append_cons]
      cases hjoined : ['\n'].intercalate (second :: codes) with
      | nil =>
        rw [hjoined] at h
        obtain rfl : '\n' = c := Option.some.inj h
        cases hc
      | cons d rest =>
        rw [hjoined, List.getLast?_cons_cons, ← hjoined] at h
        rw [List.getLast?_cons, ih h]
        rfl

/-- A list that ends where its parenthesis closes has that parenthesis on its last line. -/
theorem exists_closing {codes : List (List Char)} {body : List Char}
    (h : ['\n'].intercalate codes = body ++ [')']) (hbody : ')' ∉ body) :
    ∃ above last, codes = above ++ [last] ∧ (∀ code ∈ above, ')' ∉ code) ∧ ')' ∈ last := by
  induction codes generalizing body with
  | nil => simp at h
  | cons first codes ih =>
    cases codes with
    | nil =>
      obtain rfl : first = body ++ [')'] := by simpa using h
      exact ⟨[], _, rfl, by simp, by simp⟩
    | cons second codes =>
      rw [joined_cons_cons] at h
      obtain ⟨below, rfl, hrest⟩ : ∃ below, body = first ++ '\n' :: below ∧
          ['\n'].intercalate (second :: codes) = below ++ [')'] := by
        rcases List.append_eq_append_iff.1 h with ⟨a, rfl, ha⟩ | ⟨a, rfl, ha⟩
        · -- The line feed is not the parenthesis, so it stands before it.
          cases a with
          | nil => simp at ha
          | cons c a =>
            obtain ⟨rfl, hrest⟩ := List.cons.inj ha
            exact ⟨a, rfl, hrest⟩
        · cases a with
          | nil => simp at ha
          | cons c a => simp at ha
      obtain ⟨above, last, hsplit, habove, hlast⟩ :=
        ih hrest fun hmem => hbody (by simp [hmem])
      refine ⟨first :: above, last, by rw [hsplit]; rfl, ?_, hlast⟩
      exact List.forall_mem_cons.2 ⟨fun hmem => hbody (by simp [hmem]), habove⟩

/-- What a line gives to a list is its code, closed where that has a parenthesis. -/
theorem WrittenLine.listPart_text {l : WrittenLine} (h : '#' ∉ l.code) :
    listPart l.text = (trim l.code, l.code.contains ')') := by
  obtain ⟨back, hback, hbefore⟩ := exists_before_comment h l.tail.only
  have hnot : back.contains ')' = false := by
    by_contra hmem
    have hmem : ')' ∈ back := by simpa using hmem
    exact absurd (allBlank_iff.1 hback _ hmem) (by decide)
  unfold listPart WrittenLine.text
  rw [hbefore, trim_append_blank hback, List.contains_append, hnot, Bool.or_false]

/-- A list that does not begin with a parenthesis, or is closed on its line, has no more lines. -/
theorem namesOver_of_closed {names : List Char} {rest : List (List Char)}
    (h : startsWith ['('] names = false ∨ ')' ∈ names) : namesOver names rest = (names, 0) := by
  unfold namesOver
  rcases h with hstart | hclosed
  · simp [hstart]
  · simp [hclosed]

/-- A list that is open at the end of its line goes on to the line that closes it. -/
theorem namesOver_of_open {names : List Char} {open_ : List WrittenLine} {closing : WrittenLine}
    (later : List (List Char)) (hstart : startsWith ['('] names = true) (hnames : ')' ∉ names)
    (hhash : ∀ l ∈ open_ ++ [closing], '#' ∉ l.code) (hopen : ∀ l ∈ open_, ')' ∉ l.code)
    (hclosing : ')' ∈ closing.code) :
    namesOver names ((open_ ++ [closing]).map (·.text) ++ later) =
      (names ++ (open_ ++ [closing]).flatMap fun l => ' ' :: trim l.code,
        (open_ ++ [closing]).length) := by
  let part (l : WrittenLine) : List Char × Bool := (trim l.code, l.code.contains ')')
  have hparts : ((open_ ++ [closing]).map (·.text) ++ later).map listPart =
      (open_ ++ [closing]).map part ++ later.map listPart := by
    rw [List.map_append, List.map_map]
    congr 1
    exact List.map_congr_left fun l hl => WrittenLine.listPart_text (hhash l hl)
  have htake : ((open_ ++ [closing]).map part ++ later.map listPart).takeWhile (!·.2) =
      open_.map part := by
    have hpos : ∀ x ∈ open_.map part, (!x.2) = true := by
      intro x hx
      obtain ⟨l, hl, rfl⟩ := List.mem_map.1 hx
      simpa [part] using hopen l hl
    rw [List.map_append, List.append_assoc, List.takeWhile_append_of_pos hpos]
    simp [part, hclosing]
  have hused : ((open_ ++ [closing]).map part ++ later.map listPart).take
      ((open_.map part).length + 1) = (open_ ++ [closing]).map part := by
    apply List.take_left'
    rw [List.length_map, List.length_map, List.length_append, List.length_singleton]
  have hcontains : names.contains ')' = false := by simpa using hnames
  rw [namesOver_eq, hstart, hcontains, hparts]
  simp only [Bool.not_false, Bool.and_self, if_true]
  rw [htake, hused, List.flatMap_map, List.length_map]

/-- Parentheses stand alone around the lexemes of a list. -/
theorem lexemes_inParens (text : List Char) : lexemes isListSign ('(' :: (text ++ [')'])) =
    ['('] :: (lexemes isListSign text ++ [[')']]) := by
  have hfirst : lexemes isListSign ([] ++ '(' :: (text ++ [')'])) = _ :=
    lexemes_append_sign rfl rfl [] (text ++ [')'])
  have hlast : lexemes isListSign (text ++ [')']) = _ := lexemes_append_sign rfl rfl text []
  rw [List.nil_append] at hfirst
  rw [hfirst, hlast]
  rfl

namespace NamesImport

variable (s : NamesImport)

/-- A list in parentheses, broken into lines, is closed on the last of them. -/
theorem exists_closing {ending : Option Blanks} (h : s.form = .inParens ending) :
    ∃ above last, s.codes = above ++ [last] ∧ (∀ code ∈ above, ')' ∉ code) ∧ ')' ∈ last := by
  have hwritten := s.written
  rw [h, ListForm.text, ← List.cons_append] at hwritten
  apply Python.exists_closing hwritten
  intro hmem
  have hmem : ')' ∈ listText s.items ending := by simpa using hmem
  exact plain_listText _ _ ')' hmem (by decide)

/-- The list is read over its lines, and no further. -/
theorem namesOver_line (later : List (List Char)) :
    namesOver (trim s.first.code) (s.more.map (·.text) ++ later) =
      (spaced s.codes, s.more.length) := by
  cases hform : s.form with
  | bare =>
    have hmore := s.alone hform
    have hnot : startsWith ['('] (trim s.first.code) = false := by
      by_contra hstart
      rw [Bool.not_eq_false, startsWith_singleton] at hstart
      have hmem := mem_dropAroundWhile (List.mem_of_mem_head? hstart)
      rw [s.first_bare hform] at hmem
      exact plain_listText _ _ '(' hmem (by decide)
    rw [codes, hmore, namesOver_of_closed (.inl hnot)]
    simp [spaced]
  | inParens ending =>
    obtain ⟨above, last, hcodes, habove, hlast⟩ := s.exists_closing hform
    rw [codes, List.map_cons] at hcodes
    cases above with
    | nil =>
      -- The list is closed on its first line.
      obtain ⟨rfl, hmore⟩ := List.cons.inj hcodes
      have hclosed : ')' ∈ trim s.first.code := by
        rw [← List.count_pos_iff, count_trim rfl]
        exact List.count_pos_iff.2 hlast
      rw [codes, List.map_eq_nil_iff.1 hmore, namesOver_of_closed (.inr hclosed)]
      simp [spaced]
    | cons first above =>
      obtain ⟨rfl, hmore⟩ := List.cons.inj hcodes
      obtain ⟨hfirst, habove⟩ := List.forall_mem_cons.1 habove
      obtain ⟨open_, closing, hsplit, rfl, hclosing⟩ := List.map_eq_append_iff.1 hmore
      obtain ⟨closing, rfl, rfl⟩ := List.map_eq_singleton_iff.1 hclosing
      obtain ⟨code, hcode⟩ := s.first_inParens hform
      have hstart : startsWith ['('] (trim s.first.code) = true :=
        (startsWith_singleton _ _).2 (head?_trim rfl (by rw [hcode]; rfl))
      have hhash : ∀ l ∈ open_ ++ [closing], '#' ∉ l.code := fun l hl =>
        s.hash_not_mem_codes
          (List.mem_map_of_mem (List.mem_cons_of_mem _ (hsplit ▸ hl)))
      rw [hsplit, namesOver_of_open later hstart (fun hmem => hfirst (mem_dropAroundWhile hmem))
        hhash (fun l hl => habove l.code (List.mem_map_of_mem hl)) hlast, codes, hsplit,
        List.map_cons, spaced_cons, List.flatMap_map]

/-- Over the lines of a list in parentheses stand the parentheses, and in them its lexemes. -/
theorem exists_inner {ending : Option Blanks} (h : s.form = .inParens ending) :
    ∃ inner, spaced s.codes = '(' :: (inner ++ [')']) ∧ (∀ c ∈ ['(', ')'], c ∉ inner) ∧
      lexemes isListSign inner = lexemes isListSign (listText s.items ending) := by
  have hwritten : ['\n'].intercalate s.codes = '(' :: (listText s.items ending ++ [')']) := by
    rw [codes, s.written, h, ListForm.text]
  obtain ⟨inner, hinner⟩ : ∃ inner, spaced s.codes = '(' :: (inner ++ [')']) := by
    obtain ⟨code, hcode⟩ := s.first_inParens h
    have hhead : (spaced s.codes).head? = some '(' := by
      rw [codes, List.map_cons, spaced_cons, List.head?_append,
        head?_trim (c := '(') rfl (by rw [hcode]; rfl), Option.some_or]
    have hlast : (spaced s.codes).getLast? = some ')' := by
      apply getLast?_spaced rfl
      rw [hwritten, ← List.cons_append, List.getLast?_append]
      rfl
    obtain ⟨rest, hrest⟩ := List.head?_eq_some_iff.1 hhead
    cases rest with
    | nil => simp [hrest] at hlast
    | cons c rest =>
      rw [hrest, List.getLast?_cons_cons] at hlast
      obtain ⟨inner, hinner⟩ := List.getLast?_eq_some_iff.1 hlast
      exact ⟨inner, by rw [hrest, hinner]⟩
  refine ⟨inner, hinner, fun c hc => ?_, ?_⟩
  · have hblank : isBlank c = false :=
      not_blank_of_mark (List.mem_cons_of_mem _ (List.mem_append_left ['#'] hc))
    have hnone : c ∉ listText s.items ending := fun hmem =>
      plain_listText _ _ c hmem (List.mem_append_left ['#'] hc)
    have hcount := count_spaced hblank s.codes
    rw [hwritten, hinner] at hcount
    simp only [List.count_cons, List.count_append, List.count_eq_zero.2 hnone] at hcount
    apply List.count_eq_zero.1
    omega
  · have hsame := lexemes_spaced s.codes
    rw [hwritten, hinner, lexemes_inParens, lexemes_inParens] at hsame
    exact List.append_cancel_right (List.cons.inj hsame).2

/-- The names of a list, whether it has parentheses or not. -/
theorem namesOf_spaced : namesOf (spaced s.codes) =
    s.items.map fun i => String.ofList i.name.text := by
  cases hform : s.form with
  | bare =>
    have hspaced : spaced s.codes = trim (listText s.items none) := by
      rw [codes, s.alone hform, ← s.first_bare hform]
      simp [spaced]
    rw [hspaced]
    refine namesOf_of_lexemes s.ne_nil (fun c hc hmem => ?_) rfl (lexemes_trim signs_isListSign _)
    exact plain_listText _ _ c (mem_dropAroundWhile hc) (List.mem_append_left ['#'] hmem)
  | inParens ending =>
    obtain ⟨inner, hinner, hparens, hlexemes⟩ := s.exists_inner hform
    refine namesOf_of_lexemes s.ne_nil (fun c hc hmem => hparens c hmem hc) ?_ hlexemes
    rw [hinner, ← List.singleton_append, ← List.append_assoc]
    exact dropAroundWhile_append (by simp [isListEdge]) (by simp [isListEdge])

end NamesImport

/-! ## Files of imports -/

/-- A line that says nothing is taken for nothing. -/
theorem lineKind_tail (tail : Tail) : lineKind tail.text = .other := by
  have htrim : trimStart tail.text = [] ∨ ∃ r, trimStart tail.text = '#' :: r := by
    have honly := tail.only
    unfold onlyComment at honly
    split at honly
    · exact .inl ‹_›
    · rename_i c r htrim
      obtain rfl : c = '#' := of_decide_eq_true honly
      exact .inr ⟨r, htrim⟩
  unfold lineKind isDecorator fromImport? import? declared? function? class?
  rcases htrim with h | ⟨r, h⟩
  · rw [h]
    rfl
  · rw [h]
    rfl

/-- An import over its lines, or a line that is blank or a comment. -/
inductive ImportEntry where
  | modules (s : ModulesImport)
  | names (s : NamesImport)
  | remark (tail : Tail)

namespace ImportEntry

def lines : ImportEntry → List (List Char)
  | .modules s => [s.line]
  | .names s => s.line :: s.more.map (·.text)
  | .remark tail => [tail.text]

/-- The imports of an entry that stands after `before` lines: one of each module, and one of all
the names of a module. -/
def imports (before : Nat) : ImportEntry → List Import
  | .modules s => s.items.map (·.module (lineNumber before))
  | .names s => [{ Import.plain (String.ofList s.source) (lineNumber before) with
      named := s.items.map fun i => String.ofList i.name.text }]
  | .remark _ => []

/-- The pass comes to the first line of an entry, and from there to the line after its last. -/
theorem scan (docs : Bool) (e : ImportEntry) (before : Nat) (scopes : List Scope)
    (later : List (List Char)) :
    ∃ line rest used, e.lines ++ later = line :: rest ∧ e.lines.length = 1 + used ∧
      scanLine docs before scopes line rest =
        ({ FileFacts.nothing with imports := e.imports before }, used, scopes) := by
  cases e with
  | modules s =>
    refine ⟨s.line, later, 0, rfl, rfl, ?_⟩
    have hkind : (Stop.mk before scopes s.line later).kind = _ := s.lineKind_line
    have hlist : modulesOf (trim (listText s.items none)) (lineNumber before) =
        s.items.map (·.module (lineNumber before)) := by
      refine modulesOf_of_lexemes s.ne_nil (fun c hc hmem => ?_) (lexemes_trim signs_isListSign _) _
      exact plain_listText _ _ c (mem_dropAroundWhile hc) (List.mem_append_left ['#'] hmem)
    refine (Stop.scan_modules hkind).trans ?_
    dsimp only
    rw [hlist]
    rfl
  | names s =>
    refine ⟨s.line, s.more.map (·.text) ++ later, s.more.length, rfl, ?_, ?_⟩
    · rw [lines, List.length_cons, List.length_map, Nat.add_comm]
    · have hkind : (Stop.mk before scopes s.line (s.more.map (·.text) ++ later)).kind = _ :=
        s.lineKind_line
      refine (Stop.scan_fromModule hkind).trans ?_
      dsimp only
      rw [s.namesOver_line, s.namesOf_spaced]
      rfl
  | remark tail =>
    refine ⟨tail.text, later, 0, rfl, rfl, ?_⟩
    have hkind : (Stop.mk before scopes tail.text later).kind = .other := lineKind_tail tail
    exact Stop.scan_other hkind

end ImportEntry

/-- The imports of entries that stand after `before` lines. -/
def importsFrom (before : Nat) : List ImportEntry → List Import
  | [] => []
  | e :: entries => e.imports before ++ importsFrom (before + e.lines.length) entries

/-- What the pass tells of entries, one after the other. -/
theorem concat_tells_entries (docs : Bool) (before : Nat) (scopes : List Scope)
    (entries : List ImportEntry) :
    FileFacts.concat ((stops before scopes (entries.flatMap (·.lines))).map (·.tell docs)) =
      { FileFacts.nothing with imports := importsFrom before entries } := by
  induction entries generalizing before with
  | nil => rw [List.flatMap_nil, stops]; rfl
  | cons e entries ih =>
    obtain ⟨line, rest, used, hlines, hlength, hscan⟩ :=
      e.scan docs before scopes (entries.flatMap (·.lines))
    let p : Stop := ⟨before, scopes, line, rest⟩
    have hp := p.scan_eq docs
    rw [show p.scan docs = _ from hscan] at hp
    obtain ⟨htell, hp⟩ := Prod.mk.inj hp
    obtain ⟨hused, hinner⟩ := Prod.mk.inj hp
    have hrest : (e.lines ++ entries.flatMap (·.lines)).drop e.lines.length =
        entries.flatMap (·.lines) := List.drop_left
    rw [hlines, hlength, Nat.add_comm, List.drop_succ_cons] at hrest
    rw [List.flatMap_cons, hlines, stops, List.map_cons]
    change FileFacts.concat (p.tell docs ::
      (stops (before + 1 + p.used) p.inner (rest.drop p.used)).map (·.tell docs)) = _
    rw [← htell, ← hused, ← hinner, hrest, FileFacts.concat_cons_imports, Nat.add_assoc, ← hlength, ih]
    rfl

/-- A file of imports, however their lists are laid out and whatever the comments say, is surveyed
as the modules and names that are written there, each at the line where its import begins, and as
nothing else. -/
theorem survey_imports (docs : Bool) {source : String} {entries : List ImportEntry}
    (h : lines source.toList = entries.flatMap (·.lines)) :
    survey docs source = { FileFacts.nothing with imports := importsFrom 0 entries } := by
  rw [survey_eq, stopsOf, h]
  exact concat_tells_entries docs 0 [] entries

namespace Layouts

/-- A list over six lines, one of them blank, with signs of lists in the comments; a line of two
modules; and a list that stands alone. -/
def source : String :=
  "from ..pkg.mod import (  # see (a, b)\n\n    first as one,  # not the end )\n\t# no, thing\n" ++
    "    second,\n)  # done (,\n# import sys\nimport os, os.path as path#\n  from m import x as y, z"

theorem blank_space : allBlank [' '] = true := rfl

def space : Gap := ⟨[' '], List.cons_ne_nil _ _, blank_space⟩

def noBlanks : Blanks := ⟨[], List.all_nil⟩

def name (text : String) (ne_nil : text.toList ≠ [])
    (plain : text.toList.all (fun c => !isBlank c && c ∉ [',', '(', ')', '#']) = true) :
    ImportName where
  text := text.toList
  ne_nil := ne_nil
  plain := by simpa using plain

def first : ImportItem where
  before := ⟨"\n\n    ".toList, rfl⟩
  name := name "first" (by decide) rfl
  newName := some ⟨space, space, name "one" (by decide) rfl⟩
  after := noBlanks

def second : ImportItem where
  before := ⟨"\n\n    ".toList, rfl⟩
  name := name "second" (by decide) rfl
  newName := none
  after := noBlanks

/-- The names in parentheses. -/
def broken : NamesImport where
  indent := noBlanks
  afterFrom := space
  source := "..pkg.mod".toList
  source_ne_nil := by decide
  source_plain := List.all_eq_true.1 rfl
  afterSource := space
  afterImport := space
  items := [first, second]
  ne_nil := by simp
  form := .inParens (some ⟨['\n'], rfl⟩)
  first := ⟨['('], "  # see (a, b)".toList, rfl⟩
  more :=
    [⟨[], [], rfl⟩, ⟨"    first as one,".toList, "  # not the end )".toList, rfl⟩,
      ⟨[], "\t# no, thing".toList, rfl⟩, ⟨"    second,".toList, [], rfl⟩,
      ⟨[')'], "  # done (,".toList, rfl⟩]
  written := by decide
  alone := by rintro ⟨⟩

/-- The modules. -/
def modules : ModulesImport where
  indent := noBlanks
  gap := space
  items :=
    [⟨noBlanks, name "os" (by decide) rfl, none, noBlanks⟩,
      ⟨⟨[' '], blank_space⟩, name "os.path" (by decide) rfl,
        some ⟨space, space, name "path" (by decide) rfl⟩, noBlanks⟩]
  ne_nil := by simp
  tail := ⟨['#'], rfl⟩

/-- The names without parentheses. -/
def bare : NamesImport where
  indent := ⟨[' ', ' '], rfl⟩
  afterFrom := space
  source := ['m']
  source_ne_nil := by decide
  source_plain := List.all_eq_true.1 rfl
  afterSource := space
  afterImport := space
  items :=
    [⟨noBlanks, name "x" (by decide) rfl, some ⟨space, space, name "y" (by decide) rfl⟩, noBlanks⟩,
      ⟨⟨[' '], blank_space⟩, name "z" (by decide) rfl, none, noBlanks⟩]
  ne_nil := by simp
  form := .bare
  first := ⟨"x as y, z".toList, [], rfl⟩
  more := []
  written := by decide
  alone := fun _ => rfl

def entries : List ImportEntry :=
  [.names broken, .remark ⟨"# import sys".toList, rfl⟩, .modules modules, .names bare]

end Layouts

/-- Three imports in one file. -/
theorem survey_imports_of_layouts :
    lines Layouts.source.toList = Layouts.entries.flatMap (·.lines) ∧
      survey true Layouts.source =
        { FileFacts.nothing with imports :=
            [{ Import.plain "..pkg.mod" 1 with named := ["first", "second"] },
              Import.plain "os" 8,
              { Import.plain "os.path" 8 with namespaceName := some "path" },
              { Import.plain "m" 9 with named := ["x", "z"] }] } := by
  have h : lines Layouts.source.toList = Layouts.entries.flatMap (·.lines) := by decide +kernel
  refine ⟨h, (survey_imports true h).trans ?_⟩
  decide +kernel

end CodeSurvey.Python
