-- The survey of a Go text by the indices of its lines and by offsets in them. Its slices and its
-- indices are checked, and every turn of its pass must get further. None of them gives a fault, for
-- any text, and the survey is the one that goes by characters.
import CodeSurvey.Proofs.Go.Pass
import CodeSurvey.Proofs.Text.Offset

namespace CodeSurvey.Go

open Text

/-! ## Parentheses -/

/-- The offset of the parenthesis that closes the open ones, in a text after `offset` bytes. -/
def closingFrom (depth : Int) (offset : Nat) : List Char → Option Nat
  | [] => none
  | c :: rest =>
    let next := offset + c.utf8Size
    if c = '(' then closingFrom (depth + 1) next rest
    else if c = ')' then
      if depth - 1 = 0 then some offset else closingFrom (depth - 1) next rest
    else closingFrom depth next rest

/-- The offset of the parenthesis that closes the one at an offset. -/
def matchingParen (text : List Char) (opened : Nat) : Except Fault (Option Nat) := do
  let rest ← slice text opened (byteSize text)
  return closingFrom 0 opened rest

theorem closingFrom_eq (depth offset : Nat) (s : List Char) :
    closingFrom (depth + 1) offset s = (closing? depth s).map fun cut => offset + byteSize cut.1 := by
  induction s generalizing depth offset with
  | nil => rfl
  | cons c s ih =>
    have hshift : ∀ found : Option (List Char × List Char),
        found.map (fun cut => offset + c.utf8Size + byteSize cut.1) =
          (found.map fun cut => (c :: cut.1, cut.2)).map fun cut => offset + byteSize cut.1 := by
      intro found
      cases found with
      | none => rfl
      | some cut => exact congrArg some (Nat.add_assoc _ _ _)
    unfold closingFrom closing?
    dsimp only
    by_cases hopens : c = '('
    · have hdeeper := ih (depth + 1) (offset + c.utf8Size)
      rw [Int.natCast_succ] at hdeeper
      rw [if_pos hopens, hdeeper, hshift, if_neg (by simp [hopens]), if_pos hopens]
    · rw [if_neg hopens, if_neg hopens]
      by_cases hcloses : c = ')'
      · rw [if_pos hcloses, if_pos hcloses]
        cases depth with
        | zero => rfl
        | succ depth =>
          have hdepth : ((depth + 1 : Nat) : Int) + 1 - 1 = depth + 1 := by omega
          rw [hdepth, if_neg (by omega), ih, hshift]
      · rw [if_neg hcloses, if_neg hcloses, ih, hshift]

/-- What is closed stands before its parenthesis, and the rest behind it. -/
theorem append_of_closing? {depth : Nat} {s a b : List Char} (h : closing? depth s = some (a, b)) :
    s = a ++ ')' :: b := by
  fun_induction closing? depth s generalizing a with
  | case1 => cases h
  | case2 rest =>
    obtain ⟨rfl, rfl⟩ := Prod.mk.inj (Option.some.inj h)
    rfl
  | case3 rest depth ih =>
    obtain ⟨⟨a', b'⟩, hrest, heq⟩ := Option.map_eq_some_iff.1 h
    obtain ⟨rfl, rfl⟩ := Prod.mk.inj heq
    rw [ih hrest]
    rfl
  | case4 depth c rest hc ih =>
    obtain ⟨⟨a', b'⟩, hrest, heq⟩ := Option.map_eq_some_iff.1 h
    obtain ⟨rfl, rfl⟩ := Prod.mk.inj heq
    rw [ih hrest]
    rfl

/-! ## Parameters -/

/-- The parameter at an index gets the type. -/
def setType (type : String) (params : List Parameter) (i : Nat) : Except Fault (List Parameter) :=
  if i < params.length then
    .ok (params.modify i fun p => { p with writtenType := some type })
  else .error .index

/-- The parameters at the places of a list, behind those read so far. Those at the indices `waiting`
take the next type. -/
def parametersFrom (params : List Parameter) (waiting : List Nat) :
    List (List Char) → Except Fault (List Parameter)
  | [] => .ok params
  | place :: rest =>
    if (trim place).isEmpty then parametersFrom params waiting rest
    else
      let (name, type) := nameAndType (trim place)
      let p := { Parameter.called (String.ofList name) with writtenType := type }
      match type with
      | some type => do
        let params ← waiting.foldlM (setType type) params
        parametersFrom (params ++ [p]) [] rest
      | none => parametersFrom (params ++ [p]) (waiting ++ [params.length]) rest

def parametersBy (raw : List Char) : Except Fault (List Parameter) := do
  let places ← cutOutside ',' raw
  parametersFrom [] [] places

/-- The type of a parameter is its own, or that of the next one that has one. -/
def withText (text : List Char) (later : List Parameter × Option String) :
    List Parameter × Option String :=
  let (name, type) := nameAndType text
  ({ Parameter.called (String.ofList name) with writtenType := type.or later.2 } :: later.1,
    type.or later.2)

theorem parametersOf_eq (raw : List Char) : parametersOf raw =
    ((((splitOutside ',' raw).map trim).filter (!·.isEmpty)).foldr withText ([], none)).1 := rfl

/-- The parameters that wait are the last ones, and all of them get the type. -/
theorem foldlM_setType (type : String) (done waiting : List Parameter) :
    (List.range' done.length waiting.length).foldlM (setType type) (done ++ waiting) =
      .ok (done ++ waiting.map fun p => { p with writtenType := some type }) := by
  induction waiting generalizing done with
  | nil => rfl
  | cons p waiting ih =>
    have hset : setType type (done ++ p :: waiting) done.length =
        .ok (done ++ [{ p with writtenType := some type }] ++ waiting) := by
      have hlt : done.length < (done ++ p :: waiting).length := by simp
      rw [setType, if_pos hlt, List.modify_eq_take_cons_drop hlt]
      simp
    have hrest := ih (done ++ [{ p with writtenType := some type }])
    rw [List.length_append, List.length_singleton] at hrest
    rw [List.length_cons, List.range'_succ, List.foldlM_cons, hset]
    change List.foldlM _ _ _ = _
    rw [hrest]
    simp

theorem parametersFrom_eq (done waiting : List Parameter) (places : List (List Char))
    (hwaiting : ∀ p ∈ waiting, p.writtenType = none) :
    parametersFrom (done ++ waiting) (List.range' done.length waiting.length) places =
      let later := ((places.map trim).filter (!·.isEmpty)).foldr withText ([], none)
      .ok (done ++ waiting.map (fun p => { p with writtenType := later.2 }) ++ later.1) := by
  dsimp only
  induction places generalizing done waiting with
  | nil =>
    have hnone : waiting.map (fun p => { p with writtenType := none }) = waiting := by
      rw [List.map_congr_left (g := id), List.map_id]
      intro p hp
      rw [← hwaiting p hp]
      rfl
    simp [parametersFrom, hnone]
  | cons place rest ih =>
    rw [parametersFrom, List.map_cons, List.filter_cons]
    cases hempty : (trim place).isEmpty with
    | true => exact ih done waiting hwaiting
    | false =>
      rw [if_neg Bool.false_ne_true, Bool.not_false, if_pos rfl, List.foldr_cons, withText]
      obtain ⟨name, type⟩ := nameAndType (trim place)
      dsimp only
      cases type with
      | some type =>
        let p := { Parameter.called (String.ofList name) with writtenType := some type }
        have hrest := ih (done ++ waiting.map (fun p => { p with writtenType := some type }) ++ [p]) []
          (by simp)
        rw [List.append_nil, List.length_nil, List.range'_zero] at hrest
        dsimp only
        rw [foldlM_setType]
        refine Eq.trans hrest ?_
        simp [p]
      | none =>
        let p := { Parameter.called (String.ofList name) with writtenType := none }
        have hwaits : ∀ q ∈ waiting ++ [p], q.writtenType = none := by
          intro q hq
          rcases List.mem_append.1 hq with hq | hq
          · exact hwaiting q hq
          · rw [List.mem_singleton.1 hq]
        have hrest := ih done (waiting ++ [p]) hwaits
        rw [List.length_append, List.length_singleton, List.range'_concat, Nat.one_mul,
          ← List.length_append, ← List.append_assoc] at hrest
        refine Eq.trans hrest ?_
        simp [p]

theorem parametersBy_eq (raw : List Char) : parametersBy raw = .ok (parametersOf raw) := by
  have hread := parametersFrom_eq [] [] (splitOutside ',' raw) (by simp)
  rw [parametersBy, cutOutside_eq, parametersOf_eq]
  exact hread

/-! ## Headers -/

/-- The parameters and the result of a function whose list is opened at the offset. -/
def parametersAndResultBy (line : List Char) (opened : Nat) :
    Except Fault (List Parameter × Option String) := do
  match ← matchingParen line opened with
  | some closed => do
    let after ← slice line (closed + 1) (byteSize line)
    let list ← slice line (opened + 1) closed
    let params ← parametersBy list
    return (params, typeText (trim (Text.before ['\x7b'] after)))
  | none => return ([], none)

theorem parametersAndResultBy_eq (front rest : List Char) :
    parametersAndResultBy (front ++ '(' :: rest) (byteSize front) =
      .ok (parametersAndResult rest) := by
  have hparen : matchingParen (front ++ '(' :: rest) (byteSize front) =
      .ok ((closing? 0 rest).map fun cut => byteSize front + 1 + byteSize cut.1) := by
    rw [matchingParen, slice_back]
    exact congrArg Except.ok (closingFrom_eq 0 (byteSize front + 1) rest)
  unfold parametersAndResultBy parametersAndResult
  rw [hparen]
  cases hclosing : closing? 0 rest with
  | none => rfl
  | some cut =>
    obtain ⟨list, after⟩ := cut
    obtain rfl := append_of_closing? hclosing
    have hopen : '('.utf8Size = 1 := rfl
    have hclose : ')'.utf8Size = 1 := rfl
    have hlist : slice (front ++ '(' :: (list ++ ')' :: after)) (byteSize front + 1)
        (byteSize front + 1 + byteSize list) = .ok list :=
      slice_eq_ok_iff.2 ⟨front ++ ['('], ')' :: after, by simp, by simp [hopen], by simp [hopen]⟩
    have hafter : slice (front ++ '(' :: (list ++ ')' :: after))
        (byteSize front + 1 + byteSize list + 1) (byteSize (front ++ '(' :: (list ++ ')' :: after))) =
        .ok after :=
      slice_eq_ok_iff.2 ⟨front ++ '(' :: list ++ [')'], [], by simp,
        by simp [Nat.add_assoc, hopen, hclose], by simp [Nat.add_assoc]⟩
    simp only [Option.map_some, bind, Except.bind, hlist, hafter, parametersBy_eq]
    rfl

theorem suffix_dropFront? {head s rest : List Char} (h : dropFront? head s = some rest) :
    rest <:+ s := by
  rw [dropFront?_eq_some_iff.1 h]
  exact List.suffix_append head rest

theorem suffix_trimStart (s : List Char) : trimStart s <:+ s := List.dropWhile_suffix isBlank

theorem suffix_afterKeyword? {keyword s rest : List Char} (h : afterKeyword? keyword s = some rest) :
    rest <:+ s := by
  unfold afterKeyword? at h
  split at h
  · rename_i c r hfront
    split at h
    · obtain rfl := Option.some.inj h
      exact ((suffix_trimStart r).trans (List.suffix_cons c r)).trans (suffix_dropFront? hfront)
    · cases h
  · cases h

theorem suffix_takeName? {s name after : List Char} (h : takeName? s = some (name, after)) :
    after <:+ s := by
  unfold takeName? at h
  split at h
  · cases h
  · split at h
    · obtain ⟨rfl, rfl⟩ := Prod.mk.inj (Option.some.inj h)
      exact (List.dropWhile_suffix _).trans (List.suffix_cons _ _)
    · cases h

theorem suffix_skipBrackets (s : List Char) : (skipBrackets s).2 <:+ s := by
  unfold skipBrackets
  split
  · rename_i r
    split
    · rename_i c after hdrop
      have hsuffix : c :: after <:+ r := hdrop ▸ List.dropWhile_suffix _
      exact ((List.suffix_cons c after).trans hsuffix).trans (List.suffix_cons '[' r)
    · exact List.suffix_refl _
  · exact List.suffix_refl _

theorem suffix_function? {line : List Char} {head : FuncHead} (h : function? line = some head) :
    '(' :: head.rest <:+ line := by
  unfold function? at h
  simp only [Option.bind_eq_bind, Option.bind_eq_some_iff] at h
  obtain ⟨rest, hkeyword, ⟨name, after⟩, hname, h⟩ := h
  dsimp only at h
  split at h
  · rename_i params hparams
    obtain rfl := Option.some.inj h
    rw [← hparams]
    exact (suffix_trimStart _).trans ((suffix_skipBrackets _).trans ((suffix_trimStart _).trans
      ((suffix_takeName? hname).trans (suffix_afterKeyword? hkeyword))))
  · cases h

theorem suffix_method? {line : List Char} {head : FuncHead} (h : method? line = some head) :
    '(' :: head.rest <:+ line := by
  unfold method? at h
  simp only [Option.bind_eq_bind, Option.bind_eq_some_iff] at h
  obtain ⟨rest, hfunc, h⟩ := h
  split at h
  · rename_i r hreceiver
    split at h
    · rename_i c after hclosed
      simp only [Option.bind_eq_some_iff] at h
      obtain ⟨⟨name, after'⟩, hname, h⟩ := h
      dsimp only at h
      split at h
      · rename_i params hparams
        obtain rfl := Option.some.inj h
        have hafter : c :: after <:+ r := hclosed ▸ List.dropWhile_suffix _
        have hr : '(' :: r <:+ rest := hreceiver ▸ suffix_trimStart rest
        rw [← hparams]
        exact (suffix_trimStart _).trans ((suffix_takeName? hname).trans ((suffix_trimStart _).trans
          ((List.suffix_cons c after).trans (hafter.trans ((List.suffix_cons '(' r).trans
            (hr.trans (suffix_dropFront? hfunc)))))))
      · cases h
    · cases h
  · cases h

/-- The list of a function is what follows a parenthesis on its line. -/
theorem exists_front {line : List Char} {head : FuncHead} (h : func? line = some head) :
    ∃ front, line = front ++ '(' :: head.rest := by
  have hsuffix : '(' :: head.rest <:+ line := by
    rcases Option.or_eq_some_iff.1 h with h | ⟨-, h⟩
    · exact suffix_method? h
    · exact suffix_function? h
  obtain ⟨front, hline⟩ := hsuffix
  exact ⟨front, hline.symm⟩

/-- The list of a function is read from its parenthesis, one byte before what follows that. -/
theorem parametersAndResultBy_of_func {line : List Char} {head : FuncHead}
    (h : func? line = some head) :
    parametersAndResultBy line (byteSize line - byteSize head.rest - 1) =
      .ok (parametersAndResult head.rest) := by
  obtain ⟨front, hline⟩ := exists_front h
  have hopened : byteSize line - byteSize head.rest - 1 = byteSize front := by
    have hparen : '('.utf8Size = 1 := rfl
    rw [hline, byteSize_append, byteSize_cons, hparen]
    omega
  rw [hopened, hline]
  exact parametersAndResultBy_eq front head.rest

/-! ## Lines of a declaration -/

/-- The index of the line, from `index` on, on which no brace is open; that of the last line when
there is none. -/
def braceEnd (last : Nat) (b : Braces) (index : Nat) : List (List Char) → Nat
  | [] => last
  | line :: rest =>
    let b := b.line line
    if !b.opened || b.depth ≤ 0 then index else braceEnd last b (index + 1) rest

theorem braceEnd_eq (b : Braces) (index : Nat) (line : List Char) (rest : List (List Char)) :
    braceEnd (index + rest.length) b index (line :: rest) =
      index + extraLines b (line :: rest) := by
  induction rest generalizing b index line with
  | nil =>
    unfold braceEnd extraLines
    dsimp only
    split
    · rfl
    · rfl
  | cons next rest ih =>
    have hrest := ih (b.line line) (index + 1) next
    rw [List.length_cons, Nat.add_comm rest.length, ← Nat.add_assoc]
    rw [braceEnd, extraLines]
    split
    · rfl
    · rw [if_neg (by simp), hrest, Nat.add_right_comm, Nat.add_assoc]

/-- Below a line of a text, the braces are closed as many lines further down as it takes. -/
theorem braceEnd_of_drop {lines rest : List (List Char)} {line : List Char} {index : Nat}
    (h : lines.drop index = line :: rest) :
    braceEnd (lines.length - 1) .start index (lines.drop index) =
      index + extraLines .start (line :: rest) := by
  have hlength := congrArg List.length h
  rw [List.length_drop, List.length_cons] at hlength
  have hlast : lines.length - 1 = index + rest.length := by omega
  rw [h, hlast, braceEnd_eq]

/-- The comment lines above the line `index`, the nearest first, behind those collected. -/
def commentFrom (lines collected : List (List Char)) : Nat → Except Fault (List (List Char))
  | 0 => .ok collected
  | index + 1 => do
    let line ← itemAt lines index
    match dropFront? ['/', '/'] (trim line) with
    | some text => commentFrom lines (collected ++ [trim text]) index
    | none => return collected

/-- The comment in the lines above a declaration on the line `index`. -/
def docAt (lines : List (List Char)) (index : Nat) : Except Fault (Option String) := do
  let comment ← commentFrom lines [] index
  return if comment.isEmpty then none
    else some (String.ofList (['\n'].intercalate comment.reverse))

theorem commentFrom_eq {lines : List (List Char)} (collected : List (List Char)) {index : Nat}
    (h : index ≤ lines.length) : commentFrom lines collected index =
      .ok (collected ++ commentLines (lines.take index).reverse) := by
  induction index generalizing collected with
  | zero => simp [commentFrom, commentLines]
  | succ index ih =>
    have hdrop := List.drop_eq_getElem_cons h
    rw [commentFrom, itemAt_of_drop hdrop, List.take_succ_eq_append_getElem h, List.reverse_append,
      List.reverse_singleton, List.singleton_append, commentLines]
    simp only [bind, Except.bind]
    cases dropFront? ['/', '/'] (trim lines[index]) with
    | some text =>
      dsimp only
      rw [ih _ (Nat.le_of_succ_le h)]
      simp
    | none => simp [pure, Except.pure]

theorem docAt_eq {lines : List (List Char)} {index : Nat} (h : index ≤ lines.length) :
    docAt lines index = .ok (docAbove (lines.take index).reverse) := by
  rw [docAt, commentFrom_eq [] h]
  rfl

/-! ## The pass -/

/-- What the declaration of a type tells, from its first line to the line `last`. -/
def TypeHead.tellTo (head : TypeHead) (header : List (List Char)) (index last : Nat)
    (doc : Option String) : FileFacts :=
  let name := String.ofList head.name
  let kind := typeKind head.underlying
  { facts := [{ Fact.bare name kind (lineNumber index) (lineNumber last) with
      signature := headerText header
      docComment := doc
      exported := isExported head.name
      accessibility := some (accessibilityOf head.name) }]
    imports := []
    exports := exportOf head.name (lineNumber index)
    features := { Features.none with classes := kind == .class_, generics := head.bracketed } }

/-- What the declaration of a function or method tells, from its first line to the line `last`, with
its parameters and its result. -/
def FuncHead.tellTo (head : FuncHead) (params : List Parameter) (result : Option String)
    (header : List (List Char)) (index last : Nat) (doc : Option String) : FileFacts :=
  let own := isExported head.name
  let (kind, name, exported) :=
    match head.receiver with
    | some receiver =>
      let owner := receiverName receiver
      (FactKind.method, owner ++ '.' :: head.name, own && isExported owner)
    | none => (FactKind.function, head.name, own)
  { facts := [{ Fact.bare (String.ofList name) kind (lineNumber index) (lineNumber last) with
      signature := headerText header
      docComment := doc
      parameters := some params
      returnType := result
      exported := exported
      accessibility := some (accessibilityOf head.name) }]
    imports := []
    exports := if head.receiver.isSome then [] else exportOf head.name (lineNumber index)
    features := { Features.none with
      generics := head.generic
      typeAnnotations := params.any (·.writtenType.isSome) } }

theorem FuncHead.tellTo_eq (head : FuncHead) (lines : List (List Char)) (index : Nat)
    (doc : Option String) :
    head.tellTo (parametersAndResult head.rest).1 (parametersAndResult head.rest).2 lines index
      (index + (lines.length - 1)) doc = tellFunc head lines index doc := rfl

/-- What the line `index` tells, the line that the pass comes to next, and whether a block of imports
is open then. -/
def scanAt (docs : Bool) (lines : List (List Char)) (index : Nat) (inImports : Bool) :
    Except Fault (FileFacts × Nat × Bool) := do
  let line ← itemAt lines index
  if opensImports line then return (FileFacts.nothing, index + 1, true)
  if inImports then
    if closesImports line then return (FileFacts.nothing, index + 1, false)
    match blockImport? line with
    | some spec => return (tellImport spec (lineNumber index), index + 1, true)
    | none => return (FileFacts.nothing, index + 1, true)
  match import? line with
  | some spec => return (tellImport spec (lineNumber index), index + 1, false)
  | none =>
    let last := braceEnd (lines.length - 1) .start index (lines.drop index)
    match type? line with
    | some head => do
      let header ← itemsBetween lines index (index + 1)
      let doc ← if docs then docAt lines index else .ok none
      return (head.tellTo header index last doc, index + 1, false)
    | none =>
      match func? line with
      | some head => do
        let header ← itemsBetween lines index (last + 1)
        let (params, result) ←
          parametersAndResultBy line (byteSize line - byteSize head.rest - 1)
        let doc ← if docs then docAt lines index else .ok none
        return (head.tellTo params result header index last doc, last + 1, false)
      | none => return (FileFacts.nothing, index + 1, false)

/-- The survey of a Go text by offsets. -/
def surveyByOffset (docs : Bool) (source : String) : Except Fault FileFacts :=
  let lines := lines source.toList
  (turns (scanAt docs lines) lines.length 0 false).map FileFacts.concat

theorem scanAt_eq (docs : Bool) {lines rest : List (List Char)} {line : List Char} {index : Nat}
    (h : lines.drop index = line :: rest) (inImports : Bool) :
    let found := scanLine docs index (lines.take index).reverse inImports line rest
    scanAt docs lines index inImports = .ok (found.1, index + 1 + found.2.1, found.2.2) := by
  have hlt : index < lines.length := by
    by_contra hge
    rw [List.drop_eq_nil_of_le (Nat.le_of_not_lt hge)] at h
    cases h
  have hdoc : docAt lines index = .ok (docAbove (lines.take index).reverse) :=
    docAt_eq (Nat.le_of_lt hlt)
  have hextra := Stop.extraLines_le .start line rest
  dsimp only
  unfold scanAt scanLine
  rw [itemAt_of_drop h]
  simp only [bind, Except.bind]
  cases opensImports line with
  | true => rfl
  | false =>
  cases inImports with
  | true =>
    cases closesImports line with
    | true => rfl
    | false => cases blockImport? line <;> rfl
  | false =>
  cases import? line with
  | some spec => rfl
  | none =>
  simp only [Bool.false_eq_true, if_false, braceEnd_of_drop h]
  cases type? line with
  | some head =>
    have hone : itemsBetween lines index (index + 1) = .ok [line] :=
      itemsBetween_of_drop h (Nat.zero_le _)
    cases docs with
    | true =>
      simp only [hone, hdoc, if_true]
      rfl
    | false =>
      simp only [hone, Bool.false_eq_true, if_false]
      rfl
  | none =>
  cases hfunc : func? line with
  | none => rfl
  | some head =>
    have hread := parametersAndResultBy_of_func hfunc
    have hheader := itemsBetween_of_drop h hextra
    have hlines : (line :: rest.take (extraLines .start (line :: rest))).length - 1 =
        extraLines .start (line :: rest) := by
      rw [List.length_cons, List.length_take, Nat.add_sub_cancel, Nat.min_eq_left hextra]
    have htold := fun doc => head.tellTo_eq (line :: rest.take (extraLines .start (line :: rest)))
      index doc
    have hnext : index + extraLines .start (line :: rest) + 1 =
        index + 1 + extraLines .start (line :: rest) := Nat.add_right_comm _ _ _
    rw [hlines] at htold
    cases docs with
    | true =>
      simp only [hheader, hread, hdoc, if_true, htold, hnext]
      rfl
    | false =>
      simp only [hheader, hread, Bool.false_eq_true, if_false, htold, hnext]
      rfl

/-- The pass by indices comes to the stops of the pass, always further down, and ends. -/
theorem turns_eq (docs : Bool) (lines : List (List Char)) (index : Nat) (inImports : Bool) :
    turns (scanAt docs lines) lines.length index inImports = .ok
      ((stops index (lines.take index).reverse inImports (lines.drop index)).map (·.tell docs)) := by
  by_cases hlt : index < lines.length
  · have hdrop := List.drop_eq_getElem_cons hlt
    let p : Stop :=
      ⟨index, (lines.take index).reverse, inImports, lines[index], lines.drop (index + 1)⟩
    have hscan : scanAt docs lines index inImports =
        .ok (p.tell docs, index + 1 + p.used, p.leavesOpen) := by
      have hp : scanLine docs index (lines.take index).reverse inImports lines[index]
          (lines.drop (index + 1)) = _ := p.scan_eq docs
      rw [scanAt_eq docs hdrop, hp]
    have habove : (lines.take (index + 1 + p.used)).reverse =
        ((lines.drop (index + 1)).take p.used).reverse ++ lines[index] :: (lines.take index).reverse := by
      rw [List.take_add, List.reverse_append, List.take_succ_eq_append_getElem hlt,
        List.reverse_append]
      rfl
    rw [turns_of_turn _ hlt hscan (by omega), turns_eq docs lines, habove, hdrop, stops,
      List.map_cons, List.drop_drop]
    rfl
  · have hge := Nat.le_of_not_lt hlt
    rw [turns_of_le _ hge, List.drop_eq_nil_of_le hge, stops]
    rfl
termination_by lines.length - index

/-- The survey of a Go text by offsets never gives a fault, always ends, and gives the survey. -/
theorem surveyByOffset_eq (docs : Bool) (source : String) :
    surveyByOffset docs source = .ok (survey docs source) := by
  rw [surveyByOffset, turns_eq, survey_eq]
  rfl

end CodeSurvey.Go
