-- The edges that imports give: one for each import with a source, fit to be stored for its
-- file, and labelled with the package that the specifier belongs to. The package of a
-- specifier is what its first segments spell, so that it is a package of its own.
import CodeSurvey.Proofs.Store.Lawful
import CodeSurvey.Proofs.Text.Blank
import CodeSurvey.Proofs.Text.Pieces

namespace CodeSurvey

open Text

/-! ## Relative specifiers -/

/-- What a specifier of a file in the same repository begins with: a dot in Python, one or two dots
and a slash in Go, and a dot or a slash elsewhere. -/
def relativeFronts (language : String) : List (List Char) :=
  if language = "python" then [['.']]
  else if language = "go" then [['.', '/'], ['.', '.', '/']]
  else [['.'], ['/']]

theorem isRelative_iff (language specifier : String) :
    isRelative language specifier = true ↔
      ∃ front ∈ relativeFronts language, front <+: specifier.toList := by
  unfold isRelative relativeFronts
  split
  · simp [startsWith]
  · simp [startsWith]
  · rename_i hpython hgo
    rw [if_neg hpython, if_neg hgo]
    simp [startsWith]

/-! ## Packages -/

/-- The sign between the segments of a specifier. -/
def segmentSign (language : String) : Char := if language = "python" then '.' else '/'

/-- The number of segments that name the package, all of them in Go. A first segment that names a
scope has the next one with it. -/
def rootLength (language : String) (segments : List (List Char)) : Nat :=
  if language = "python" then 1
  else if language = "go" then segments.length
  else if segments.head?.any (startsWith ['@']) then 2
  else 1

/-- The segments of a specifier up to its package root. -/
def packageRoot (language specifier : String) : List (List Char) :=
  let segments := specifier.toList.splitOn (segmentSign language)
  segments.take (rootLength language segments)

variable {language s t : String}

theorem rootLength_pos (language : String) {segments : List (List Char)} (h : segments ≠ []) :
    0 < rootLength language segments := by
  unfold rootLength
  split
  · exact Nat.one_pos
  · split
    · exact List.length_pos_of_ne_nil h
    · split <;> omega

theorem packageRoot_ne_nil (language s : String) : packageRoot language s ≠ [] := by
  have hne := List.splitOn_ne_nil (segmentSign language) s.toList
  have hpos := rootLength_pos language hne
  simp only [packageRoot, ne_eq, List.take_eq_nil_iff, not_or]
  exact ⟨by omega, hne⟩

/-- The segments of a package root name no more than themselves. -/
theorem take_rootLength (language : String) (segments : List (List Char)) :
    let root := segments.take (rootLength language segments)
    root.take (rootLength language root) = root := by
  intro root
  by_cases hpython : language = "python"
  · simp [root, rootLength, hpython, List.take_take]
  by_cases hgo : language = "go"
  · simp [root, rootLength, hgo]
  have hhead : root.head? = segments.head? := by
    cases segments with
    | nil => simp [root]
    | cons first rest =>
      obtain ⟨k, hk⟩ := Nat.exists_eq_succ_of_ne_zero
        (rootLength_pos language (List.cons_ne_nil first rest)).ne'
      simp only [root, hk, List.take_succ_cons, List.head?_cons]
  have hlength : rootLength language root = rootLength language segments := by
    simp only [rootLength, hpython, hgo, hhead, if_false]
  rw [hlength, List.take_take, Nat.min_self]

/-- The package is what the segments up to its root spell. -/
theorem packageOf_eq (language s : String) :
    packageOf language s =
      String.ofList ([segmentSign language].intercalate (packageRoot language s)) := by
  unfold packageOf packageRoot
  split
  · simp [segmentSign, rootLength, take_one_splitOn]
  · simp [segmentSign, rootLength, List.intercalate_splitOn]
  · rename_i hpython hgo
    have hsign : segmentSign language = '/' := if_neg hpython
    have hroot : ∀ segments, rootLength language segments =
        if segments.head?.any (startsWith ['@']) then 2 else 1 := by
      intro segments
      rw [rootLength, if_neg hpython, if_neg hgo]
    simp only [hsign, hroot]
    cases hsplit : s.toList.splitOn '/' with
    | nil => exact absurd hsplit (List.splitOn_ne_nil _ _)
    | cons first rest =>
      cases rest with
      | nil => cases hscope : startsWith ['@'] first <;> simp [hscope]
      | cons second rest => cases hscope : startsWith ['@'] first <;> simp [hscope]

/-- The segments of a package are those of the root that it was taken from. -/
theorem splitOn_packageOf (language s : String) :
    (packageOf language s).toList.splitOn (segmentSign language) = packageRoot language s := by
  rw [packageOf_eq, String.toList_ofList]
  refine List.splitOn_intercalate _ (fun segment hsegment => ?_) (packageRoot_ne_nil language s)
  exact (mem_splitOn (List.mem_of_mem_take hsegment)).1

theorem packageOf_packageOf (language s : String) :
    packageOf language (packageOf language s) = packageOf language s := by
  have hroot : packageRoot language (packageOf language s) = packageRoot language s := by
    rw [packageRoot, splitOn_packageOf]
    exact take_rootLength language _
  rw [packageOf_eq, hroot, ← packageOf_eq]

/-- Two specifiers have one package exactly when they agree up to its root. -/
theorem packageOf_eq_iff :
    packageOf language s = packageOf language t ↔
      packageRoot language s = packageRoot language t := by
  constructor
  · intro h
    rw [← splitOn_packageOf, ← splitOn_packageOf, h]
  · intro h
    rw [packageOf_eq, packageOf_eq, h]

theorem packageOf_prefix (language s : String) : (packageOf language s).toList <+: s.toList := by
  have hwhole : [segmentSign language].intercalate (s.toList.splitOn (segmentSign language)) =
      s.toList := List.intercalate_splitOn _
  have hprefix := intercalate_take_prefix [segmentSign language]
    (s.toList.splitOn (segmentSign language))
    (rootLength language (s.toList.splitOn (segmentSign language)))
  rw [hwhole] at hprefix
  rwa [packageOf_eq, String.toList_ofList]

/-- A specifier that begins with the sign is relative, but in Go, where the package is all of it. -/
theorem packageOf_ne_empty (hs : s ≠ "") (hrelative : isRelative language s = false) :
    packageOf language s ≠ "" := by
  by_cases hgo : language = "go"
  · rwa [hgo]
  obtain ⟨c, cs, hcs⟩ := List.exists_cons_of_ne_nil (l := s.toList) (by simpa using hs)
  have hc : c ≠ segmentSign language := by
    rintro rfl
    have hfront : [segmentSign language] ∈ relativeFronts language := by
      by_cases hpython : language = "python"
      · simp [segmentSign, relativeFronts, hpython]
      · simp [segmentSign, relativeFronts, hpython, hgo]
    have hbegins : [segmentSign language] <+: s.toList := ⟨cs, hcs.symm⟩
    rw [(isRelative_iff language s).2 ⟨_, hfront, hbegins⟩] at hrelative
    cases hrelative
  intro hempty
  have hroot := splitOn_packageOf language s
  rw [hempty] at hroot
  have hfirst : [[]] = packageRoot language s := hroot
  obtain ⟨first, rest, hsplit⟩ := List.exists_cons_of_ne_nil
    (List.splitOn_ne_nil (segmentSign language) cs)
  rw [packageRoot, hcs, List.splitOn_cons_eq_if_modifyHead, if_neg (by simpa using hc), hsplit,
    List.modifyHead_cons] at hfirst
  obtain ⟨k, hk⟩ := Nat.exists_eq_succ_of_ne_zero
    (rootLength_pos language (List.cons_ne_nil (c :: first) rest)).ne'
  rw [hk, List.take_succ_cons] at hfirst
  cases (List.cons.inj hfirst).1

/-! ## Drafts -/

/-- The edge is what the import of a file is drafted as. -/
structure Drafted (repository : String) (file : Int64) (language : String) (i : Import)
    (e : Edge) : Prop where
  repository : e.repository = repository
  sourceFile : e.sourceFile = file
  targetFile : e.targetFile = none
  kind : e.kind = importEdgeKind
  specifier : e.specifier = String.ofList (trim i.source.toList)
  line : e.line = i.line
  relative : e.externalTarget = none ↔ isRelative language e.specifier = true
  label : ∀ label, e.externalTarget = some label →
    label = packageOf language e.specifier ∧ label ≠ "" ∧
      label.toList <+: e.specifier.toList ∧ packageOf language label = label

variable {repository : String} {file : Int64} {i : Import}

theorem draftEdge_of_blank (h : allBlank i.source.toList = true) :
    draftEdge repository file language i = none := by
  have hempty : (String.ofList (trim i.source.toList)).isEmpty = true := by
    simp [trim_of_allBlank h]
  simp [draftEdge, hempty]

theorem drafted_of_not_blank (repository : String) (file : Int64) (language : String)
    (h : allBlank i.source.toList = false) : ∃ e, draftEdge repository file language i = some e ∧
      Drafted repository file language i e := by
  have htrim : String.ofList (trim i.source.toList) ≠ "" := by
    simp [trim_eq_nil_iff, h]
  have hfull : (String.ofList (trim i.source.toList)).isEmpty = false := by simpa using htrim
  simp only [draftEdge, hfull, Bool.false_eq_true, if_false, Option.some.injEq]
  refine ⟨_, rfl, rfl, rfl, rfl, rfl, rfl, rfl, ?_, ?_⟩
  · dsimp only
    split
    · simp [*]
    · simp [*]
  · intro label hlabel
    dsimp only at hlabel ⊢
    split at hlabel
    · cases hlabel
    · rename_i hrelative
      obtain rfl := Option.some.inj hlabel
      exact ⟨rfl, packageOf_ne_empty htrim (by simpa using hrelative), packageOf_prefix _ _,
        packageOf_packageOf _ _⟩

/-- The imports with a source are drafted one by one, in order. -/
theorem drafted_in_order (repository : String) (file : Int64) (language : String)
    (imports : List Import) :
    List.Forall₂ (Drafted repository file language)
      (imports.filter fun i => !allBlank i.source.toList)
      (draftEdges repository file language imports) := by
  induction imports with
  | nil => exact .nil
  | cons i imports ih =>
    cases hblank : allBlank i.source.toList with
    | true =>
      rw [List.filter_cons_of_neg (by simp [hblank]), draftEdges,
        List.filterMap_cons_none (draftEdge_of_blank hblank)]
      exact ih
    | false =>
      obtain ⟨e, he, hdrafted⟩ := drafted_of_not_blank repository file language hblank
      rw [List.filter_cons_of_pos (by simp [hblank]), draftEdges, List.filterMap_cons_some he]
      exact .cons hdrafted ih

theorem exists_drafted {imports : List Import} {e : Edge}
    (h : e ∈ draftEdges repository file language imports) :
    ∃ i, Drafted repository file language i e := by
  have hdrafted := drafted_in_order repository file language imports
  generalize draftEdges repository file language imports = edges at h hdrafted
  generalize imports.filter (fun i => !allBlank i.source.toList) = sources at hdrafted
  induction hdrafted with
  | nil => cases h
  | cons hfirst _ ih =>
    rcases List.mem_cons.1 h with rfl | h
    · exact ⟨_, hfirst⟩
    · exact ih h

/-- Each import with a source gives one edge, in order, which is fit to be stored for the file. An
edge that is not relative has a label, and those of two specifiers are the same exactly when the
specifiers agree up to their package root. -/
theorem drafts_are_complete_and_labelled (repository : String) (file : Int64) (language : String)
    (imports : List Import) :
    List.Forall₂ (Drafted repository file language)
        (imports.filter fun i => !allBlank i.source.toList)
        (draftEdges repository file language imports) ∧
      checkEdges file repository (draftEdges repository file language imports) = .ok () ∧
      ∀ s t, packageOf language s = packageOf language t ↔
        packageRoot language s = packageRoot language t := by
  refine ⟨drafted_in_order repository file language imports, ?_, fun _ _ => packageOf_eq_iff⟩
  refine checkEdges_iff.2 fun e he => ?_
  obtain ⟨i, hdrafted⟩ := exists_drafted he
  exact ⟨hdrafted.sourceFile, hdrafted.repository⟩

/-- A scope without a name is a package of its own. -/
example : packageOf "typescript" "@scope" = "@scope" ∧
    packageOf "typescript" "@scope/" = "@scope/" ∧
    packageOf "typescript" "@scope/pkg/deep" = "@scope/pkg" ∧
    packageOf "python" "os.path" = "os" := by
  decide +kernel

end CodeSurvey
