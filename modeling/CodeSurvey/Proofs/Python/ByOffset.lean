-- The survey of a Python text by the indices of its lines and by offsets in them. Its slices and
-- its indices are checked, and every turn of its pass must get further. None of them gives a fault,
-- for any text, and the survey is the one that goes by characters.
import CodeSurvey.Proofs.Python.Block
import CodeSurvey.Proofs.Python.HeaderByOffset
import CodeSurvey.Proofs.Python.Parameters
import CodeSurvey.Proofs.Python.Pass

namespace CodeSurvey.Python

open Text

/-! ## Blocks -/

/-- The index of the last line of a block, among the lines from `index` on, when it reaches to
`last` before them. -/
def blockEnd (indent last index : Nat) : List (List Char) → Nat
  | [] => last
  | line :: rest =>
    if allBlank line then blockEnd indent last (index + 1) rest
    else if indentOf line ≤ indent then last
    else blockEnd indent index (index + 1) rest

theorem blockEnd_eq (indent last index : Nat) (after : List (List Char)) :
    blockEnd indent last index after =
      if blockOf indent after = [] then last else index + (blockOf indent after).length - 1 := by
  induction after generalizing last index with
  | nil => rfl
  | cons line rest ih =>
    rw [blockEnd, blockOf_cons, ih, ih]
    cases hblank : allBlank line with
    | true =>
      simp only [if_true]
      split
      · rw [if_pos rfl]
      · rw [if_neg (List.cons_ne_nil _ _), List.length_cons]
        omega
    | false =>
      simp only [Bool.false_eq_true, if_false]
      by_cases hdeeper : indent < indentOf line
      · rw [if_neg (Nat.not_le.2 hdeeper), if_pos hdeeper, if_neg (List.cons_ne_nil _ _),
          List.length_cons]
        split
        · rename_i hnil
          rw [hnil]
          rfl
        · omega
      · rw [if_pos (Nat.not_lt.1 hdeeper), if_neg hdeeper, if_pos rfl]

/-- The block after a header ends as many lines below it as it has. -/
theorem blockEnd_after (indent headerEnd : Nat) (after : List (List Char)) :
    blockEnd indent headerEnd (headerEnd + 1) after =
      headerEnd + (blockOf indent after).length := by
  rw [blockEnd_eq]
  split
  · rename_i hnil
    rw [hnil]
    rfl
  · omega

/-! ## Comment strings -/

/-- The index of the first of the lines from `index` on that is not blank. -/
def firstWritten (lines : List (List Char)) : Nat → Nat → Except Fault (Option Nat)
  | 0, _ => .ok none
  | count + 1, index => do
    let line ← itemAt lines index
    if allBlank line then firstWritten lines count (index + 1) else return some index

/-- The string whose lines so far are `parts`, read to the marks that close it. -/
def docLines (marks : List Char) (parts : List (List Char)) :
    List (List Char) → Except Fault (Option String)
  | [] => .ok none
  | line :: rest =>
    match find? marks (trim line) with
    | some offset => do
      let last ← slice (trim line) 0 offset
      return some (String.ofList (trim (['\n'].intercalate (parts ++ [trim last]))))
    | none => docLines marks (parts ++ [trim line]) rest

/-- The string that the block begins with between the line of the colon and its own last line. -/
def docAt (lines : List (List Char)) (headerEnd last : Nat) : Except Fault (Option String) := do
  if last ≤ headerEnd then return none
  match ← firstWritten lines (last - headerEnd) (headerEnd + 1) with
  | none => return none
  | some first => do
    let line := trim (← itemAt lines first)
    match openedString? line with
    | none => return none
    | some (marks, rest) => do
      let opened ← slice line (byteSize line - byteSize rest) (byteSize line)
      match find? marks opened with
      | some offset => do
        let doc ← slice opened 0 offset
        return some (String.ofList (trim doc))
      | none => docLines marks [trim opened] ((lines.take (last + 1)).drop (first + 1))

section Doc

variable {lines block later : List (List Char)} {index : Nat}

theorem firstWritten_succ {line : List Char} (h : lines.drop index = line :: block) (count : Nat) :
    firstWritten lines (count + 1) index =
      if allBlank line then firstWritten lines count (index + 1) else .ok (some index) := by
  rw [firstWritten, itemAt_of_drop h]
  rfl

theorem firstWritten_none (h : lines.drop index = block ++ later)
    (hblank : block.dropWhile allBlank = []) :
    firstWritten lines block.length index = .ok none := by
  induction block generalizing index with
  | nil => rfl
  | cons line block ih =>
    have hall := List.dropWhile_eq_nil_iff.1 hblank
    rw [List.length_cons, firstWritten_succ h, if_pos (hall line List.mem_cons_self)]
    apply ih (drop_succ_of_drop h)
    exact List.dropWhile_eq_nil_iff.2 fun l hl => hall l (List.mem_cons_of_mem _ hl)

theorem firstWritten_some {line : List Char} {rest : List (List Char)}
    (h : lines.drop index = block ++ later) (hfirst : block.dropWhile allBlank = line :: rest) :
    ∃ first, firstWritten lines block.length index = .ok (some first) ∧
      lines.drop first = line :: (rest ++ later) ∧
      first + 1 + rest.length = index + block.length := by
  induction block generalizing index with
  | nil => cases hfirst
  | cons l block ih =>
    rw [List.length_cons, firstWritten_succ h]
    cases hblank : allBlank l with
    | true =>
      rw [List.dropWhile_cons_of_pos hblank] at hfirst
      obtain ⟨first, hfound, hdrop, hlength⟩ := ih (drop_succ_of_drop h) hfirst
      exact ⟨first, hfound, hdrop, by omega⟩
    | false =>
      rw [List.dropWhile_cons_of_neg (by simp [hblank])] at hfirst
      obtain ⟨rfl, rfl⟩ := List.cons.inj hfirst
      exact ⟨index, rfl, h, by omega⟩

theorem docLines_eq (marks : List Char) (parts rest : List (List Char)) :
    docLines marks parts rest = .ok ((closedLines? marks rest).map fun more =>
      String.ofList (trim (['\n'].intercalate (parts ++ more)))) := by
  induction rest generalizing parts with
  | nil => rfl
  | cons line rest ih =>
    rw [docLines, closedLines?, find?_eq]
    cases hcut : cutAt? marks (trim line) with
    | some cut =>
      obtain ⟨last, after⟩ := cut
      dsimp only [Option.map_some]
      rw [slice_of_cutAt? hcut]
      rfl
    | none =>
      dsimp only [Option.map_none]
      rw [ih, Option.map_map]
      congr 2
      funext more
      simp

/-- The opening marks of a string end where the rest of its line begins. -/
theorem slice_opened {line marks rest : List Char} (h : openedString? line = some (marks, rest)) :
    slice line (byteSize line - byteSize rest) (byteSize line) = .ok rest := by
  obtain ⟨front, rfl⟩ : ∃ front, line = front ++ rest := by
    unfold openedString? at h
    cases line with
    | nil => cases h
    | cons c r =>
      -- The marks begin the line, or stand behind its first letter.
      dsimp only at h
      generalize hbody :
        (if c = 'r' || c = 'R' || c = 'u' || c = 'U' then r else c :: r) = body at h
      obtain ⟨letter, hline⟩ : ∃ letter, c :: r = letter ++ body := by
        rw [← hbody]
        split
        · exact ⟨[c], rfl⟩
        · exact ⟨[], rfl⟩
      rw [hline]
      split at h
      · obtain ⟨rfl, rfl⟩ := Prod.mk.inj (Option.some.inj h)
        exact ⟨letter ++ ['"', '"', '"'], by simp⟩
      · obtain ⟨rfl, rfl⟩ := Prod.mk.inj (Option.some.inj h)
        exact ⟨letter ++ ['\'', '\'', '\''], by simp⟩
      · cases h
  rw [byteSize_append, Nat.add_sub_cancel, ← byteSize_append]
  exact slice_back front rest

/-- The string of a block is cut out without a fault. -/
theorem docAt_eq {headerEnd : Nat} (h : lines.drop (headerEnd + 1) = block ++ later) :
    docAt lines headerEnd (headerEnd + block.length) = .ok (docOf block) := by
  cases hblock : block with
  | nil =>
    rw [docAt, if_pos (by simp)]
    rfl
  | cons first rest =>
    rw [← hblock]
    have hpos : ¬headerEnd + block.length ≤ headerEnd := by
      rw [hblock, List.length_cons]
      omega
    rw [docAt, if_neg hpos, Nat.add_sub_cancel_left, docOf]
    cases hwritten : block.dropWhile allBlank with
    | nil =>
      rw [firstWritten_none h hwritten]
      rfl
    | cons line rest =>
      obtain ⟨first, hfound, hdrop, hlength⟩ := firstWritten_some h hwritten
      rw [hfound]
      simp only [bind, Except.bind, itemAt_of_drop hdrop]
      cases hopened : openedString? (trim line) with
      | none => rfl
      | some opened =>
        obtain ⟨marks, opened⟩ := opened
        have hbelow : (lines.take (headerEnd + block.length + 1)).drop (first + 1) = rest := by
          rw [List.drop_take, drop_succ_of_drop hdrop]
          apply List.take_left'
          omega
        simp only [slice_opened hopened, find?_eq, Option.bind]
        cases hcut : cutAt? marks opened with
        | some cut =>
          obtain ⟨doc, after⟩ := cut
          dsimp only [Option.map_some]
          rw [slice_of_cutAt? hcut]
          rfl
        | none =>
          dsimp only [Option.map_none]
          rw [docLines_eq, hbelow]
          cases closedLines? marks rest <;> rfl

end Doc

/-! ## Parameters -/

def parameterBy (text : List Char) : Except Fault Parameter := do
  let pieces ← cutOutside '=' text
  let (head, values) :=
    match pieces with
    | [] => ([], [])
    | head :: values => (trim head, values)
  let value :=
    if values.isEmpty then none
    else some (String.ofList (singleSpaced (['='].intercalate values)))
  let typed ← cutOutside ':' head
  let (name, written) :=
    match typed with
    | [] => ([], none)
    | [name] => (name, none)
    | name :: written :: _ => (name, some written)
  return {
    name := String.ofList ((trim name).dropWhile (· = '*'))
    writtenType := written.bind typeText
    isOptional := value.isSome
    defaultValue := value }

/-- The parameters at the places of a list, of which the first has the index. -/
def parametersFrom (isMethod : Bool) (index : Nat) : List (List Char) → Except Fault (List Parameter)
  | [] => .ok []
  | place :: rest =>
    if isSeparator (trim place) then parametersFrom isMethod (index + 1) rest
    else do
      let p ← parameterBy (trim place)
      let others ← parametersFrom isMethod (index + 1) rest
      return if index = 0 && isMethod && isReceiver p then others else p :: others

def parametersBy (isMethod : Bool) (raw : List Char) : Except Fault (List Parameter) := do
  let places ← cutOutside ',' raw
  parametersFrom isMethod 0 places

theorem parameterBy_eq (text : List Char) : parameterBy text = .ok (parameterOf text) := by
  unfold parameterBy
  simp only [cutOutside_eq, bind, Except.bind]
  rfl

theorem parametersFrom_eq (isMethod : Bool) (index : Nat) (places : List (List Char)) :
    parametersFrom isMethod index places = .ok (((places.map trim).zipIdx index).filterMap
      fun place => parameterAt? (place.2 = 0 && isMethod) place.1) := by
  induction places generalizing index with
  | nil => rfl
  | cons place rest ih =>
    rw [parametersFrom, parameterBy_eq, ih, List.map_cons, List.zipIdx_cons, List.filterMap_cons]
    unfold parameterAt?
    cases hsep : isSeparator (trim place) with
    | true => rfl
    | false =>
      simp only [Bool.false_eq_true, if_false, bind, Except.bind]
      cases hfirst : (decide (index = 0) && isMethod && isReceiver (parameterOf (trim place))) with
      | true =>
        simp only [if_true]
        rfl
      | false =>
        simp only [Bool.false_eq_true, if_false]
        rfl

theorem parametersBy_eq (isMethod : Bool) (raw : List Char) :
    parametersBy isMethod raw = .ok (parametersOf isMethod raw) := by
  rw [parametersOf_eq_filterMap, ← parametersFrom_eq, parametersBy, cutOutside_eq]
  rfl

/-! ## Imports -/

/-- The list of names of an import that goes on after the line `index`, and the line that it ends
on. -/
def namesFrom (lines : List (List Char)) (names : List Char) (index : Nat) :
    Except Fault (List Char × Nat) :=
  if h : index + 1 < lines.length then do
    let next ← itemAt lines (index + 1)
    let code := Text.before ['#'] next
    let names := names ++ ' ' :: trim code
    if code.contains ')' then return (names, index + 1)
    else namesFrom lines names (index + 1)
  else .ok (names, index)
termination_by lines.length - index

theorem namesFrom_eq {lines rest : List (List Char)} {index : Nat}
    (h : lines.drop (index + 1) = rest) (names : List Char) :
    namesFrom lines names index =
      let used := rest.take
        ((rest.takeWhile fun l => !(Text.before ['#'] l).contains ')').length + 1)
      .ok (names ++ used.flatMap (fun l => ' ' :: trim (Text.before ['#'] l)),
        index + used.length) := by
  dsimp only
  induction rest generalizing index names with
  | nil =>
    rw [namesFrom, dif_neg (Nat.not_lt.2 (List.drop_eq_nil_iff.1 h))]
    simp
  | cons line rest ih =>
    have hlt : index + 1 < lines.length := by
      by_contra hge
      rw [List.drop_eq_nil_of_le (Nat.le_of_not_lt hge)] at h
      cases h
    rw [namesFrom, dif_pos hlt, itemAt_of_drop h]
    simp only [bind, Except.bind]
    cases hclosed : (Text.before ['#'] line).contains ')' with
    | true =>
      rw [List.takeWhile_cons_of_neg (by simpa using hclosed)]
      simp [pure, Except.pure]
    | false =>
      rw [List.takeWhile_cons_of_pos (by simpa using hclosed), if_neg Bool.false_ne_true,
        ih (drop_succ_of_drop h)]
      simp [Nat.add_assoc, Nat.add_comm 1]

/-! ## The pass -/

/-- What a declaration tells, with its parameters read by offset. -/
def Declaration.tellBy (d : Declaration) : Except Fault FileFacts :=
  match d.declared with
  | .function name isAsync => do
    let kind := if d.enclosing.isSome then FactKind.method else FactKind.function
    let params ← parametersBy d.enclosing.isSome (d.header.params.getD [])
    let result := returnType d.header.tail
    return {
      facts := [{ d.fact name kind with
        parameters := some params
        returnType := result
        isAsync := isAsync }]
      imports := []
      exports := d.exported name
      features := { Features.none with
        asyncFunctions := isAsync
        typeAnnotations := result.isSome || params.any (·.writtenType.isSome) } }
  | .class_ _ => return d.tell

theorem Declaration.tellBy_eq (d : Declaration) : d.tellBy = .ok d.tell := by
  unfold tellBy tell
  cases d.declared with
  | function name isAsync =>
    dsimp only
    rw [parametersBy_eq]
    rfl
  | class_ name => rfl

/-- What the line `index` tells, the line that the pass comes to next, and the blocks open then. -/
def scanAt (docs : Bool) (lines : List (List Char)) (index : Nat) (scopes : List Scope) :
    Except Fault (FileFacts × Nat × List Scope) := do
  let line ← itemAt lines index
  if isDecorator line then
    return ({ FileFacts.nothing with features := { Features.none with decorators := true } },
      index + 1, scopes)
  match fromImport? line with
  | some (source, names) => do
    let (names, last) ←
      if startsWith ['('] names && !names.contains ')' then namesFrom lines names index
      else .ok (names, index)
    let found := { Import.plain (String.ofList source) (lineNumber index) with
      named := namesOf names }
    return ({ FileFacts.nothing with imports := [found] }, last + 1, scopes)
  | none =>
    match import? line with
    | some list =>
      return ({ FileFacts.nothing with imports := modulesOf list (lineNumber index) },
        index + 1, scopes)
    | none =>
      match declared? line with
      | none => return (FileFacts.nothing, index + 1, scopes)
      | some declared => do
        let indent := indentOf line
        let scopes := stillOpen indent index scopes
        match ← headerAt lines index with
        | none => return (FileFacts.nothing, index + 1, scopes)
        | some (header, headerEnd) => do
          let last := blockEnd indent headerEnd (headerEnd + 1) (lines.drop (headerEnd + 1))
          let doc ← if docs then docAt lines headerEnd last else .ok none
          let d : Declaration :=
            { declared := declared
              header := header
              before := index
              last := last
              doc := doc
              topLevel := scopes.isEmpty && indent == 0
              enclosing := enclosingClass scopes }
          let told ← d.tellBy
          return (told, headerEnd + 1, ⟨indent, last, d.owner⟩ :: scopes)

/-- The survey of a Python text by offsets. -/
def surveyByOffset (docs : Bool) (source : String) : Except Fault FileFacts :=
  let lines := lines source.toList
  (turns (scanAt docs lines) lines.length 0 []).map FileFacts.concat

theorem scanAt_eq (docs : Bool) {lines rest : List (List Char)} {line : List Char} {index : Nat}
    (h : lines.drop index = line :: rest) (scopes : List Scope) :
    scanAt docs lines index scopes =
      .ok ((scanLine docs index scopes line rest).1,
        index + 1 + (scanLine docs index scopes line rest).2.1,
        (scanLine docs index scopes line rest).2.2) := by
  have hrest := drop_succ_of_drop h
  unfold scanAt scanLine
  rw [itemAt_of_drop h]
  simp only [bind, Except.bind]
  cases isDecorator line with
  | true => rfl
  | false =>
  cases fromImport? line with
  | some found =>
    obtain ⟨source, names⟩ := found
    dsimp only
    unfold namesOver
    cases hopen : (startsWith ['('] names && !names.contains ')') with
    | true =>
      rw [namesFrom_eq hrest]
      simp [Nat.add_right_comm, pure, Except.pure]
    | false => rfl
  | none =>
  cases import? line with
  | some list => rfl
  | none =>
  cases declared? line with
  | none => rfl
  | some declared =>
    rw [headerAt_eq, h]
    cases hheader : readHeader (line :: rest) with
    | none => rfl
    | some found =>
      obtain ⟨header, size⟩ := found
      have hafter : lines.drop (index + (size - 1) + 1) = rest.drop (size - 1) := by
        rw [Nat.add_right_comm, ← List.drop_drop, hrest]
      obtain ⟨later, hblock⟩ := blockOf_isPrefix (indentOf line) (rest.drop (size - 1))
      have hdoc : docAt lines (index + (size - 1))
          (index + (size - 1) + (blockOf (indentOf line) (rest.drop (size - 1))).length) =
          .ok (docOf (blockOf (indentOf line) (rest.drop (size - 1)))) :=
        docAt_eq (hafter.trans hblock.symm)
      have hnext : index + (size - 1) + 1 = index + 1 + (size - 1) := Nat.add_right_comm _ _ _
      simp only [Bool.false_eq_true, if_false, Option.map_some, hafter, blockEnd_after]
      cases docs with
      | true =>
        simp only [if_true, hdoc, Declaration.tellBy_eq, hnext]
        rfl
      | false =>
        simp only [Bool.false_eq_true, if_false, Declaration.tellBy_eq, hnext]
        rfl

/-- The pass by indices comes to the stops of the pass, always further down, and ends. -/
theorem turns_eq (docs : Bool) (lines : List (List Char)) (index : Nat) (scopes : List Scope) :
    turns (scanAt docs lines) lines.length index scopes =
      .ok ((stops index scopes (lines.drop index)).map (·.tell docs)) := by
  by_cases hlt : index < lines.length
  · have hdrop := List.drop_eq_getElem_cons hlt
    let p : Stop := ⟨index, scopes, lines[index], lines.drop (index + 1)⟩
    have hscan : scanAt docs lines index scopes = .ok (p.tell docs, index + 1 + p.used, p.inner) := by
      have hp : scanLine docs index scopes lines[index] (lines.drop (index + 1)) = _ := p.scan_eq docs
      rw [scanAt_eq docs hdrop, hp]
    rw [turns_of_turn _ hlt hscan (by omega), turns_eq docs lines, hdrop, stops, List.map_cons,
      List.drop_drop]
    rfl
  · have hge := Nat.le_of_not_lt hlt
    rw [turns_of_le _ hge, List.drop_eq_nil_of_le hge, stops]
    rfl
termination_by lines.length - index

/-- The survey of a Python text by offsets never gives a fault, always ends, and gives the survey. -/
theorem surveyByOffset_eq (docs : Bool) (source : String) :
    surveyByOffset docs source = .ok (survey docs source) := by
  rw [surveyByOffset, turns_eq, survey_eq]
  rfl

end CodeSurvey.Python
