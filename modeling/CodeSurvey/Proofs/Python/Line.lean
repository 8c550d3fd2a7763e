-- Lines that begin a function: the name that they read, and that the line may go on.
import CodeSurvey.Proofs.Python.Pass
import CodeSurvey.Proofs.Text.Name

namespace CodeSurvey.Python

open Text

/-! ## Names -/

/-- An ASCII name. -/
def IsName (s : List Char) : Prop :=
  (∃ c ∈ s.head?, isNameStart c = true) ∧ ∀ c ∈ s, isAsciiWord c = true

-- The characters of the text are looked at, not all that there are.
instance (s : List Char) : Decidable (IsName s) :=
  @instDecidableAnd _ _ (Option.decidableExistsMem _) (List.decidableBAll _ _)

/-- A character of a name is no blank and no mark. -/
theorem plain_of_isAsciiWord {c : Char} (h : isAsciiWord c = true) :
    isBlank c = false ∧ isMark c = false ∧ c ∉ [':', '#', '\n'] :=
  ⟨not_blank_of_isAsciiWord h, plain_of_kind h _ (by decide)⟩

/-! ## Functions -/

/-- The words of a line that begins a function. -/
theorem function?_eq_some_iff {line : List Char} {declared : Declared} :
    function? line = some declared ↔ ∃ rest name after,
      (afterKeyword? ['d', 'e', 'f']
        ((afterKeyword? ['a', 's', 'y', 'n', 'c'] (trimStart line)).getD (trimStart line)) =
          some rest) ∧
      takeName? rest = some (name, after) ∧ (trimStart after).head? = some '(' ∧
      declared =
        .function name (afterKeyword? ['a', 's', 'y', 'n', 'c'] (trimStart line)).isSome := by
  simp only [function?, Option.bind_eq_bind, Option.bind_eq_some_iff, Prod.exists,
    Option.ite_none_right_eq_some, Option.some.injEq, @eq_comm _ _ declared]
  grind

/-- A line that begins a function begins with its keyword. -/
theorem trimStart_of_function? {line : List Char} {declared : Declared}
    (h : function? line = some declared) :
    ∃ c r, trimStart line = c :: r ∧ (c = 'a' ∨ c = 'd') := by
  obtain ⟨rest, name, after, hrest, -⟩ := function?_eq_some_iff.1 h
  cases hlater : afterKeyword? ['a', 's', 'y', 'n', 'c'] (trimStart line) with
  | some later =>
    obtain ⟨c, r, htrim, -⟩ := afterKeyword?_eq_some_iff.1 hlater
    exact ⟨_, _, htrim, .inl rfl⟩
  | none =>
    rw [hlater, Option.getD_none] at hrest
    obtain ⟨c, r, htrim, -⟩ := afterKeyword?_eq_some_iff.1 hrest
    exact ⟨_, _, htrim, .inr rfl⟩

/-- A line that begins as a keyword of a function does is a function or nothing. -/
theorem lineKind_of_front {line : List Char} {c : Char} {r : List Char}
    (htrim : trimStart line = c :: r) (hc : c = 'a' ∨ c = 'd') :
    lineKind line = ((function? line).map LineKind.declaration).getD .other := by
  have hdecorator : isDecorator line = false := by
    rw [isDecorator, htrim]
    rcases hc with rfl | rfl <;> rfl
  have hfrom : fromImport? line = none := by
    rw [fromImport?, htrim]
    rcases hc with rfl | rfl <;> rfl
  have himport : import? line = none := by
    rw [import?, htrim]
    rcases hc with rfl | rfl <;> rfl
  have hclass : class? line = none := by
    rw [class?, htrim]
    rcases hc with rfl | rfl <;> rfl
  rw [lineKind, hdecorator, hfrom, himport, declared?, hclass, Option.or_none]
  cases function? line <;> rfl

/-- A line that begins a function is taken for nothing else. -/
theorem lineKind_of_function? {line : List Char} {declared : Declared}
    (h : function? line = some declared) : lineKind line = .declaration declared := by
  obtain ⟨c, r, htrim, hc⟩ := trimStart_of_function? h
  rw [lineKind_of_front htrim hc, h]
  rfl

theorem function?_of_lineKind {line name : List Char} {isAsync : Bool}
    (h : lineKind line = .declaration (.function name isAsync)) :
    function? line = some (.function name isAsync) := by
  have hdeclared : declared? line = some (.function name isAsync) := by
    unfold lineKind at h
    grind
  unfold declared? at hdeclared
  cases hfunction : function? line with
  | some declared => rwa [hfunction, Option.some_or] at hdeclared
  | none =>
    -- What a line of a class gives is no function.
    rw [hfunction, Option.none_or] at hdeclared
    simp [class?, Option.bind_eq_some_iff] at hdeclared

/-- A line that begins a function goes on as one. -/
theorem function?_append {line : List Char} {declared : Declared}
    (h : function? line = some declared) (more : List Char) :
    function? (line ++ more) = some declared := by
  obtain ⟨c, r, htext, -⟩ := trimStart_of_function? h
  obtain ⟨rest, name, after, hrest, hname, hopen, rfl⟩ := function?_eq_some_iff.1 h
  have htrim : trimStart (line ++ more) = trimStart line ++ more :=
    trimStart_append_of_ne_nil (by simp [htext]) more
  have hrestne : rest ≠ [] := fun hnil => by simp [hnil, takeName?] at hname
  have hafterne : trimStart after ≠ [] := fun hnil => by simp [hnil] at hopen
  have hne : after ≠ [] := fun hnil => hafterne (by rw [hnil]; rfl)
  have hasync : afterKeyword? ['a', 's', 'y', 'n', 'c'] (trimStart line ++ more) =
      (afterKeyword? ['a', 's', 'y', 'n', 'c'] (trimStart line)).map (· ++ more) := by
    cases hlater : afterKeyword? ['a', 's', 'y', 'n', 'c'] (trimStart line) with
    | some later =>
      refine afterKeyword?_append hlater (fun hnil => ?_) more
      rw [hlater, hnil] at hrest
      cases hrest
    | none =>
      rw [hlater, Option.getD_none] at hrest
      obtain ⟨c, r, hdef, -⟩ := afterKeyword?_eq_some_iff.1 hrest
      rw [hdef]
      rfl
  have hword : (trimStart (after ++ more)).head? = some '(' := by
    rw [trimStart_append_of_ne_nil hafterne, List.head?_append, hopen, Option.some_or]
  refine function?_eq_some_iff.2 ⟨rest ++ more, name, after ++ more, ?_,
    takeName?_append_of_ne_nil hname hne more, hword, ?_⟩
  · rw [htrim, hasync]
    have hkeyword := afterKeyword?_append hrest hrestne more
    cases hlater : afterKeyword? ['a', 's', 'y', 'n', 'c'] (trimStart line) with
    | some later => rwa [hlater] at hkeyword
    | none => rwa [hlater] at hkeyword
  · rw [htrim, hasync, Option.isSome_map]

end CodeSurvey.Python
