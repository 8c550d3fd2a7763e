-- What a node gives of facts: one at most, with the lines of the node, and exported where an
-- export statement stands above it. Imports and exports give none.
import CodeSurvey.TypeScript.Scan

namespace CodeSurvey.TypeScript

/-! ## Nodes without facts -/

theorem facts_importOf (s : Source) (t : Tree) : (importOf s t).facts = [] := by
  unfold importOf
  split <;> rfl

theorem facts_callImportOf (s : Source) (t : Tree) : (callImportOf s t).facts = [] := by
  unfold callImportOf
  grind [importPiece, FileFacts.nothing]

theorem facts_exportOf (s : Source) (t : Tree) : (exportOf s t).facts = [] := by
  unfold exportOf
  grind [exportPiece, FileFacts.nothing]

/-! ## Nodes with a fact -/

/-- The fact has the lines of the node at the place, and is exported where an export statement
stands above it. -/
structure IsAbout (p : Place) (f : Fact) : Prop where
  startLine : f.startLine = p.node.startLine
  endLine : f.endLine = p.node.endLine
  exported : f.exported = p.isInside .exportStatement

variable {s : Source} {p : Place} {f : Fact}

theorem isAbout_factAt (s : Source) (p : Place) (name : String) (kind : FactKind)
    (signature : String) : IsAbout p (factAt s p name kind signature) :=
  ⟨rfl, rfl, rfl⟩

theorem IsAbout.asFunction (h : IsAbout p f) (s : Source) (function : Tree) :
    IsAbout p (TypeScript.asFunction s function f) :=
  ⟨h.startLine, h.endLine, h.exported⟩

theorem mem_facts_factPiece {g : Fact} (h : f ∈ (factPiece g).facts) : f = g :=
  List.mem_singleton.1 h

theorem mem_facts_named? {t : Tree} {g : String → FileFacts} (h : f ∈ (named? s t g).facts) :
    ∃ n, t.child? .name = some n ∧ f ∈ (g (s.nameOf n)).facts := by
  unfold named? at h
  cases hname : t.child? .name with
  | none =>
    rw [hname] at h
    cases h
  | some n =>
    rw [hname] at h
    exact ⟨n, rfl, h⟩

theorem isAbout_functionOf (h : f ∈ (functionOf s p).facts) : IsAbout p f := by
  obtain ⟨n, -, h⟩ := mem_facts_named? h
  rw [mem_facts_factPiece h]
  exact (isAbout_factAt ..).asFunction s p.node

theorem isAbout_functionValueOf (h : f ∈ (functionValueOf s p).facts) : IsAbout p f := by
  unfold functionValueOf at h
  split at h
  · rename_i value name _ _
    rw [mem_facts_factPiece h]
    exact (isAbout_factAt ..).asFunction s value
  · cases h

theorem isAbout_typeOf {kind : FactKind} (h : f ∈ (typeOf s kind p).facts) : IsAbout p f := by
  obtain ⟨n, -, h⟩ := mem_facts_named? h
  rw [mem_facts_factPiece h]
  exact isAbout_factAt ..

theorem isAbout_typeAliasOf (h : f ∈ (typeAliasOf s p).facts) : IsAbout p f := by
  obtain ⟨n, -, h⟩ := mem_facts_named? h
  rw [mem_facts_factPiece h]
  exact isAbout_factAt ..

/-- A method is named after its owner. -/
theorem mem_facts_methodOf (h : f ∈ (methodOf s p).facts) : IsAbout p f ∧ f.kind = .method ∧
    ∃ owner n, ownerName? s p = some owner ∧ p.node.child? .name = some n ∧
      f.name = owner ++ "." ++ s.nameOf n := by
  unfold methodOf at h
  cases howner : ownerName? s p with
  | none =>
    rw [howner] at h
    cases h
  | some owner =>
    rw [howner] at h
    obtain ⟨n, hn, h⟩ := mem_facts_named? h
    obtain rfl := mem_facts_factPiece h
    exact ⟨⟨rfl, rfl, rfl⟩, rfl, owner, n, rfl, hn, rfl⟩

/-- Whatever fact a node gives is about that node. -/
theorem isAbout_pieceAt (h : f ∈ (pieceAt s p).facts) : IsAbout p f := by
  unfold pieceAt at h
  split at h
  · rw [facts_importOf] at h
    cases h
  · rw [facts_exportOf] at h
    cases h
  · rw [facts_callImportOf] at h
    cases h
  · exact isAbout_functionOf h
  · exact isAbout_functionOf h
  · exact isAbout_functionValueOf h
  · exact isAbout_typeOf h
  · exact isAbout_typeOf h
  · exact (mem_facts_methodOf h).1
  · exact isAbout_typeOf h
  · exact isAbout_typeAliasOf h
  all_goals cases h

end CodeSurvey.TypeScript
