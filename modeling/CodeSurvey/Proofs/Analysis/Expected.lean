-- What an analysis has to store, told from the disk and the registry alone: a
-- record for each found file that is a text, and for each record what the first
-- surveyor that takes it tells of it. The analysis computes just that.
import CodeSurvey.Analysis
import CodeSurvey.Proofs.Survey.Edges

namespace CodeSurvey

/-! ## Places -/

namespace Disk

section Following

variable {root : Node} {last : Bool} {links : Nat} {here : List String}
  {entries : List (String × Node)}

theorem follow_empty (h : root.at? here = some (.directory entries)) (rest : List String) :
    follow root last links here ("" :: rest) = follow root last links here rest := by
  rw [follow_piece, h]
  simp

/-- The name of an entry leads there, unless that is a link. -/
theorem follow_entry {name : String} {n : Node} (h : root.at? here = some (.directory entries))
    (hname : name ≠ "" ∧ name ≠ "." ∧ name ≠ ".." ∧ name.utf8ByteSize ≤ longestName)
    (hentry : root.at? (here ++ [name]) = some n) (hlink : ∀ target, n ≠ .link target)
    (rest : List String) :
    follow root last links here (name :: rest) =
      follow root last links (here ++ [name]) rest := by
  obtain ⟨hempty, hdot, hup, hlong⟩ := hname
  rw [follow_piece, h]
  cases n with
  | link target => exact absurd rfl (hlink target)
  | file c => simp [hempty, hdot, hup, Nat.not_lt.2 hlong, hentry]
  | directory es => simp [hempty, hdot, hup, Nat.not_lt.2 hlong, hentry]

end Following

variable {d : Disk} {entries : List (String × Node)}

theorem entries_root (h : d.root = .directory entries) : d.entries "/" = .ok entries := by
  have hroot : d.root.at? [] = some (.directory entries) := congrArg some h
  have hplace : d.place true "/" = .ok (.taken []) :=
    (follow_empty hroot [""]).trans ((follow_empty hroot []).trans follow_nil)
  simp only [Disk.entries, node, locate, hplace, hroot, bind, Except.bind, pure, Except.pure]

theorem content_in_root (h : d.root = .directory entries) {path : String} (name : String)
    {c : Content}
    (hpath : path ≠ "" ∧ path.toList.contains '\x00' = false ∧ Path.isAbsolute path = true ∧
      pieces path = ["", name])
    (hname : name ≠ "" ∧ name ≠ "." ∧ name ≠ ".." ∧ name.utf8ByteSize ≤ longestName)
    (hentry : d.root.at? [name] = some (.file c)) : d.content path = .ok c := by
  obtain ⟨hempty, hzero, habsolute, hpieces⟩ := hpath
  have hroot : d.root.at? [] = some (.directory entries) := congrArg some h
  have hplace : d.place true path = .ok (.taken [name]) := by
    simp only [place, hempty, hzero, habsolute, hpieces, if_false, if_true, Bool.false_eq_true]
    exact (follow_empty hroot [name]).trans
      ((follow_entry hroot hname hentry (by simp) []).trans follow_nil)
  simp only [content, node, locate, hplace, hentry, bind, Except.bind, pure, Except.pure]

end Disk

/-! ## Files -/

/-- The text that bytes are, when none of them is zero. -/
def plainText? (b : ByteArray) : Option String :=
  if 0 ∈ b.toList then none else String.fromUTF8? b

/-- The record of a found file, when its bytes are a text. -/
def FoundFile.record? (repository : String) (d : Disk) (f : FoundFile) : Option NewFile :=
  match d.content f.path with
  | .ok (.bytes b) => (plainText? b).map (fun text => {
      repository := repository
      path := f.relativePath
      name := (Path.fileName? f.path).getD f.relativePath
      extension := f.extension
      language := some f.language
      size := f.size
      content := some text
      contentHash := some (Text.digest text) })
  | _ => none

/-- The records of all found files that are texts, in order. -/
def FoundFile.records (repository : String) (d : Disk) (found : List FoundFile) : List NewFile :=
  found.filterMap (FoundFile.record? repository d)

/-- A file is read just when its bytes are a text. -/
theorem Disk.toOption_text (d : Disk) (path : String) :
    (d.text path).toOption =
      match d.content path with
      | .ok (.bytes b) => plainText? b
      | _ => none := by
  unfold Disk.text
  cases d.content path with
  | error i => rfl
  | ok c =>
    cases c with
    | archive entries => rfl
    | database db => rfl
    | bytes b =>
      simp only [plainText?, Text.decode, List.contains_iff_mem]
      split
      · rfl
      · cases String.fromUTF8? b <;> rfl

theorem Analyzer.newFile?_eq (repository : String) (d : Disk) (f : FoundFile) :
    Analyzer.newFile? repository d f = f.record? repository d := by
  unfold newFile? FoundFile.record?
  rw [Disk.toOption_text]
  cases d.content f.path with
  | error i => rfl
  | ok c => cases c <;> rfl

/-- A record belongs to the repository and has the size that was found. -/
theorem FoundFile.of_mem_records {repository : String} {d : Disk} {found : List FoundFile}
    {f : NewFile} (h : f ∈ records repository d found) :
    f.repository = repository ∧ ∃ x ∈ found, f.size = x.size := by
  obtain ⟨x, hx, hrecord⟩ := List.mem_filterMap.1 h
  unfold record? at hrecord
  split at hrecord
  · obtain ⟨text, -, rfl⟩ := Option.map_eq_some_iff.1 hrecord
    exact ⟨rfl, x, hx, rfl⟩
  · cases hrecord

/-! ## Facts and edges -/

namespace Registry

/-- What the first surveyor that takes the file tells of it. Nothing is told when there is no such
surveyor, or when it breaks off. -/
def told? (r : Registry) (f : NewFile) : Option (Surveyor × FileFacts) := do
  let content ← f.content
  let surveyor ← r.surveyors.find? (·.supports (normalizedExtension f.extension))
  let told ← surveyor.survey (SurveyOptions.forExtension f.extension) content
  return (surveyor, told)

/-- The facts that are to be stored of a file: those told of it whose lines it has. -/
def factsOf (r : Registry) (f : NewFile) : List Fact :=
  match r.told? f with
  | some (_, told) => told.facts.filter (fun x =>
      1 ≤ x.startLine && x.startLine ≤ x.endLine && x.endLine ≤ f.lineCount)
  | none => []

/-- The edges that are to be stored of a file: one for each import told of it that names
something. -/
def edgesOf (r : Registry) (f : StoredFile) : List Edge :=
  match r.told? f.toNewFile with
  | some (surveyor, told) => draftEdges f.repository f.id surveyor.language told.imports
  | none => []

/-- The largest number of facts and edges that can be stored of a file. -/
def weight (r : Registry) (f : NewFile) : Nat :=
  match r.told? f with
  | some (_, told) => told.facts.length + told.imports.length
  | none => 0

theorem length_le_weight (r : Registry) (f : StoredFile) :
    (r.factsOf f.toNewFile).length + (r.edgesOf f).length ≤ r.weight f.toNewFile := by
  unfold factsOf edgesOf weight
  cases r.told? f.toNewFile with
  | none => simp
  | some t => exact Nat.add_le_add (List.length_filter_le _ _) (List.length_filterMap_le _ _)

/-- An edge that is to be stored starts at the file, and leads to no stored file. -/
theorem of_mem_edgesOf {r : Registry} {f : StoredFile} {e : Edge} (h : e ∈ r.edgesOf f) :
    e.sourceFile = f.id ∧ e.repository = f.repository ∧ e.targetFile = none := by
  unfold edgesOf at h
  split at h
  · obtain ⟨i, hdrafted⟩ := exists_drafted h
    exact ⟨hdrafted.sourceFile, hdrafted.repository, hdrafted.targetFile⟩
  · cases h

theorem checkEdges_edgesOf (r : Registry) (f : StoredFile) :
    checkEdges f.id f.repository (r.edgesOf f) = .ok () :=
  checkEdges_iff.2 fun _ he => ⟨(of_mem_edgesOf he).1, (of_mem_edgesOf he).2.1⟩

/-- What is stored for a file is what is told of it; nothing where nothing is told. -/
theorem factsOf?_eq (r : Registry) (f : StoredFile) :
    Analyzer.factsOf? r f =
      if (r.told? f.toNewFile).isSome then some (r.factsOf f.toNewFile, r.edgesOf f) else none := by
  have hfind : r.surveyors.find? (·.supports (normalizedExtension f.extension)) =
      r.surveyorFor f.extension := rfl
  unfold Analyzer.factsOf? factsOf edgesOf told? Registry.survey
  rw [hfind]
  cases f.content with
  | none => rfl
  | some content =>
    cases r.surveyorFor f.extension with
    | none => rfl
    | some surveyor =>
      simp only [Option.bind_eq_bind, Option.bind_some]
      cases surveyor.survey (SurveyOptions.forExtension f.extension) content <;> rfl

theorem told?_of_unsupported {r : Registry} {f : NewFile} (h : r.supports f.extension = false) :
    r.told? f = none := by
  have hnone : r.surveyors.find? (·.supports (normalizedExtension f.extension)) = none := by
    simpa [supports, surveyorFor] using h
  unfold told?
  rw [hnone]
  cases f.content <;> rfl

end Registry

end CodeSurvey
