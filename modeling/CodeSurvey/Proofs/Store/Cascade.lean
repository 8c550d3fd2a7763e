-- What is left when files or a repository are removed. Clearing the files of a repository
-- takes what hangs on them, and leaves edges from elsewhere without their targets. With a
-- repository, the database removes every row that names it. The store in memory removes
-- its files and the edges that name it, and so leaves facts that name it but hang on a
-- file of another repository.
import CodeSurvey.Proofs.Store.Ownership

namespace CodeSurvey

/-! ## What is told afterwards -/

section Questions

variable {σ : Type} [Storage σ]

/-- Nothing is told of the repository. -/
structure Gone (s : σ) (id : String) : Prop where
  files : (Storage.files id s).1 = .ok []
  facts : (Storage.facts id s).1 = .ok []
  edges : (Storage.edges id s).1 = .ok []
  repository : (Storage.repository id s).1 = .ok none

/-- What is told when files of a repository are removed, beside what was told before. -/
structure Cleared (s s' : σ) (id : String) (removed : List StoredFile) : Prop where
  files : (Storage.files id s').1 = .ok []
  factsOfFile : ∀ f ∈ removed, (Storage.factsOfFile f.id s').1 = .ok []
  /-- Facts stay that hang on other files. -/
  facts (q : String) : ∃ xs, (Storage.facts q s).1 = .ok xs ∧ (Storage.facts q s').1 =
    .ok (xs.filter (fun x => !(removed.map (·.id)).contains x.file))
  /-- Edges stay that come from other files. They lose their targets, and nothing else, where these
  are removed. -/
  edges (q : String) : ∃ es, (Storage.edges q s).1 = .ok es ∧ (Storage.edges q s').1 =
    .ok ((es.filter (fun e => !(removed.map (·.id)).contains e.sourceFile)).map
      (StoredEdge.detached (removed.map (·.id))))

/-- All files of the repository can be removed, with what hangs on them. -/
def Clears (s : σ) (id : String) : Prop :=
  ∃ removed s', (Storage.files id s).1 = .ok removed ∧
    Storage.clearFiles id s = (.ok removed.length, s') ∧ Cleared s s' id removed

/-- Facts that name the repository hang on its files, and edges that name it name a known one. -/
structure GoesWithFiles (s : σ) (id : String) : Prop where
  fact (xs : List StoredFact) : (Storage.facts id s).1 = .ok xs → ∀ x ∈ xs, StoredFor s id x.file
  edge : (Storage.repository id s).1 = .ok none → (Storage.edges id s).1 = .ok []

end Questions

/-! ## Contents -/

/-- Nothing has the key that was filtered out. -/
theorem filter_key_eq_nil {α κ : Type} [BEq κ] [LawfulBEq κ] (key : α → κ) (xs : List α) (k : κ) :
    (xs.filter (fun x => key x != k)).filter (fun x => key x == k) = [] := by
  rw [List.filter_filter, List.filter_eq_nil_iff]
  simp

namespace Contents

variable {c : Contents}

theorem filesOf_clear (c : Contents) (id : String) : (c.clear id).filesOf id = [] :=
  filter_key_eq_nil (fun f : StoredFile => f.repository) c.files id

theorem factsOf_clear (c : Contents) (id q : String) : (c.clear id).factsOf q =
    (c.factsOf q).filter (fun x => !(c.idsOf id).contains x.file) := by
  simp only [factsOf, clear, List.filter_filter, Bool.and_comm]

theorem edgesOf_clear (c : Contents) (id q : String) : (c.clear id).edgesOf q =
    ((c.edgesOf q).filter (fun e => !(c.idsOf id).contains e.sourceFile)).map
      (StoredEdge.detached (c.idsOf id)) := by
  simp only [edgesOf, clear, List.filter_map, List.filter_filter]
  congr 1
  exact List.filter_congr fun e _ => Bool.and_comm _ _

theorem factsOfFile_clear {id : String} {file : Int64} (h : file ∈ c.idsOf id) :
    (c.clear id).factsOfFile file = [] := by
  simp only [factsOfFile, clear, List.filter_filter, List.filter_eq_nil_iff]
  rintro x - hx
  simp only [Bool.and_eq_true, beq_iff_eq, Bool.not_eq_true'] at hx
  obtain ⟨rfl, hout⟩ := hx
  simp [h] at hout

end Contents

section Reading

variable {σ : Type} [Storage σ] {s s' : σ} {c c' : Contents}

/-- The files of a repository are removed where just what hangs on them is gone. -/
theorem AnswersFrom.cleared (h : AnswersFrom s c) (h' : AnswersFrom s' c') {id : String}
    (hfiles : c'.filesOf id = []) (hfacts : c'.facts = (c.clear id).facts)
    (hedges : c'.edges = (c.clear id).edges) :
    Cleared s s' id (c.filesOf id) where
  files := by rw [h'.files, hfiles]
  factsOfFile f hf := by
    rw [h'.factsOfFile, Contents.factsOfFile, hfacts]
    exact congrArg _ (Contents.factsOfFile_clear (List.mem_map_of_mem hf))
  facts q := by
    refine ⟨_, h.facts q, ?_⟩
    rw [h'.facts, Contents.factsOf, hfacts]
    exact congrArg _ (c.factsOf_clear id q)
  edges q := by
    refine ⟨_, h.edges q, ?_⟩
    rw [h'.edges, Contents.edgesOf, hedges]
    exact congrArg _ (c.edgesOf_clear id q)

end Reading

/-! ## The store in memory -/

namespace MemoryStore

theorem filesOf_removeFiles (s : MemoryStore) (id : String) :
    (s.removeFiles (s.contents.idsOf id)).contents.filesOf id = [] := by
  refine List.filter_eq_nil_iff.2 fun f hf hr => ?_
  obtain ⟨hf, hout⟩ := List.mem_filter.1 hf
  have hin : f.id ∈ s.contents.idsOf id := Contents.mem_idsOf.2 ⟨f, hf, beq_iff_eq.1 hr, rfl⟩
  simp [hin] at hout

/-- In whatever state the store is, its files are removed with what hangs on them. -/
theorem clears (s : MemoryStore) (id : String) : Clears s id := by
  refine ⟨s.filesOf id, s.removeFiles (s.contents.idsOf id), rfl, ?_,
    s.answersFrom.cleared (MemoryStore.answersFrom _) (s.filesOf_removeFiles id) rfl rfl⟩
  change clearFiles id s = _
  simp only [clearFiles, List.length_map]
  rfl

theorem unknown_iff {s : MemoryStore} {id : String} :
    s.knows id = false ↔ (Storage.repository id s).1 = .ok none := by
  rw [s.answersFrom.repository, Except.ok.injEq]
  constructor
  · intro hk
    cases hof : s.contents.repositoryOf id with
    | none => rfl
    | some r =>
      have hknown : s.knows id = true := Contents.knows_of_repositoryOf hof
      rw [hk] at hknown
      cases hknown
  · exact Contents.unknown_of_repositoryOf

theorem storedFor_iff {s : MemoryStore} {id : String} {file : Int64} :
    StoredFor s id file ↔ file ∈ s.contents.idsOf id := by
  rw [s.answersFrom.storedFor_iff, Contents.mem_idsOf]
  simp only [Contents.HasFileOf, and_comm]

/-- Of a known repository, all is gone but the facts that name it and hang on other files. -/
theorem told_of_deleted {s s' : MemoryStore} {id : String} (hk : s.knows id = true)
    (hs' : (Storage.deleteRepository id s).2 = s') :
    (Storage.files id s').1 = .ok [] ∧ (Storage.edges id s').1 = .ok [] ∧
      (Storage.repository id s').1 = .ok none ∧
      (Storage.facts id s').1 = .ok ((s.contents.factsOf id).filter (fun x =>
        !(s.contents.idsOf id).contains x.file)) := by
  change (deleteRepository id s).2 = s' at hs'
  simp only [deleteRepository, hk, if_true] at hs'
  subst hs'
  refine ⟨congrArg Except.ok (s.filesOf_removeFiles id),
    congrArg Except.ok (filter_key_eq_nil (fun e : StoredEdge => e.repository) _ id),
    congrArg Except.ok (List.find?_eq_none.2 fun r hr => ?_),
    congrArg Except.ok (s.contents.factsOf_clear id id)⟩
  simpa using (List.mem_filter.1 hr).2

/-- Facts are left that name the repository when they hang on the file of another one, and edges
that name one that was never known. -/
theorem gone_iff {s : MemoryStore} (h : s.contents.Linked) (id : String) :
    Gone (Storage.deleteRepository id s).2 id ↔ GoesWithFiles s id := by
  have hreads := s.answersFrom
  cases hk : s.knows id with
  | false =>
    have hsame : (Storage.deleteRepository id s).2 = s := by
      change (deleteRepository id s).2 = s
      simp only [deleteRepository, hk, Bool.false_eq_true, if_false]
    have hids := Contents.idsOf_of_unknown h.known hk
    rw [hsame]
    constructor
    · intro hgone
      refine ⟨fun xs hxs x hx => ?_, fun _ => hgone.edges⟩
      rw [hgone.facts, Except.ok.injEq] at hxs
      subst hxs
      cases hx
    · intro hgoes
      have hnone := unknown_iff.1 hk
      have hfacts : s.contents.factsOf id = [] := by
        refine List.eq_nil_iff_forall_not_mem.2 fun x hx => ?_
        have hfile := storedFor_iff.1 (hgoes.fact _ (hreads.facts id) x hx)
        rw [hids] at hfile
        cases hfile
      exact ⟨by rw [hreads.files, List.map_eq_nil_iff.1 hids], by rw [hreads.facts, hfacts],
        hgoes.edge hnone, hnone⟩
  | true =>
    have hknown : ¬ (Storage.repository id s).1 = .ok none := by
      rw [← unknown_iff, hk]
      simp
    obtain ⟨hfiles, hedges, hrepository, hfacts⟩ := told_of_deleted hk rfl
    -- what is left are the facts that name the repository and hang on other files
    constructor
    · intro hgone
      refine ⟨fun xs hxs x hx => ?_, fun hnone => absurd hnone hknown⟩
      rw [hreads.facts, Except.ok.injEq] at hxs
      subst hxs
      rw [hgone.facts, Except.ok.injEq] at hfacts
      have hin := List.filter_eq_nil_iff.1 hfacts.symm x hx
      exact storedFor_iff.2 (by simpa using hin)
    · intro hgoes
      refine ⟨hfiles, ?_, hedges, hrepository⟩
      rw [hfacts, List.filter_eq_nil_iff.2 fun x hx => ?_]
      have hin := storedFor_iff.1 (hgoes.fact _ (hreads.facts id) x hx)
      simpa using hin

/-- Where facts and edges are on files of their own repositories, all goes with the repository. -/
theorem gone_of_owned {s : MemoryStore} (h : s.contents.Linked) (howned : Owned s) (id : String) :
    Gone (Storage.deleteRepository id s).2 id := by
  refine (gone_iff h id).2 ⟨fun xs hxs x hx => ?_, fun hnone => ?_⟩
  · have hnames : x.repository = id := by
      rw [s.answersFrom.facts, Except.ok.injEq] at hxs
      subst hxs
      exact beq_iff_eq.1 (List.mem_filter.1 hx).2
    exact (howned.fact id xs hxs x hx id).2 hnames.symm
  · have hids := Contents.idsOf_of_unknown h.known (unknown_iff.2 hnone)
    rw [s.answersFrom.edges]
    refine congrArg Except.ok (List.eq_nil_iff_forall_not_mem.2 fun e he => ?_)
    have hnames : e.repository = id := beq_iff_eq.1 (List.mem_filter.1 he).2
    have hbelongs := howned.edge id _ (s.answersFrom.edges id) e he
    have hfile := storedFor_iff.1 ((hbelongs id).2 hnames.symm)
    rw [hids] at hfile
    cases hfile

end MemoryStore

/-! ## The database -/

namespace Relational.Database

variable {d : Database} {c : Contents}

theorem clears (h : d.Keeps c) (id : String) : Clears d id := by
  have hreads : AnswersFrom d c := LawfulStorage.answersFrom h
  have hcleared := deleteFiles_keeps h id
  exact ⟨c.filesOf id, (deleteFiles id d).2, hreads.files id,
    Prod.ext (deleteFiles_answer h id) rfl,
    hreads.cleared (LawfulStorage.answersFrom hcleared) (c.filesOf_clear id) rfl rfl⟩

/-- Every row that names the repository is gone. -/
theorem gone (h : d.Keeps c) (id : String) : Gone (Storage.deleteRepository id d).2 id := by
  have hkeeps : LawfulStorage.Keeps (Storage.deleteRepository id d).2 _ :=
    deleteRepositoryRow_leaves h id
  have hreads := LawfulStorage.answersFrom hkeeps
  constructor
  · exact (hreads.files id).trans (congrArg Except.ok (c.filesOf_clear id))
  · exact (hreads.facts id).trans
      (congrArg Except.ok (filter_key_eq_nil (fun x : StoredFact => x.repository) _ id))
  · exact (hreads.edges id).trans
      (congrArg Except.ok (filter_key_eq_nil (fun e : StoredEdge => e.repository) _ id))
  · refine (hreads.repository id).trans (congrArg Except.ok (List.find?_eq_none.2 fun r hr => ?_))
    simpa using (List.mem_filter.1 hr).2

end Relational.Database

/-- After any run, the files of a repository can be cleared with what hangs on them. A repository
is deleted from the database with all that names it, and from memory exactly when what names it
hangs on its files. -/
theorem removal_cascades (run : List StoreRequest) (id : String) :
    Clears (Storage.after MemoryStore.empty run) id ∧
    Clears (Storage.after Relational.Database.fresh run) id ∧
    Gone (Storage.deleteRepository id (Storage.after Relational.Database.fresh run)).2 id ∧
    (Gone (Storage.deleteRepository id (Storage.after MemoryStore.empty run)).2 id ↔
      GoesWithFiles (Storage.after MemoryStore.empty run) id) := by
  obtain ⟨c, hkeeps, -⟩ := Relational.Database.keeps_after run
  exact ⟨MemoryStore.clears _ id, Relational.Database.clears hkeeps id,
    Relational.Database.gone hkeeps id, MemoryStore.gone_iff (MemoryStore.linked_after run) id⟩

/-- The store in memory keeps a fact of the repository that it was asked to delete. -/
theorem not_gone_of_foreign_name :
    ¬ Gone (Storage.deleteRepository "s" (Storage.after MemoryStore.empty foreignRun)).2 "s" := by
  intro h
  have hleft : (Storage.facts "s"
      (Storage.deleteRepository "s" (Storage.after MemoryStore.empty foreignRun)).2).1 =
        .ok [⟨2, 1, "s", .bare "f" .function 1 1⟩] := rfl
  rw [h.facts] at hleft
  cases hleft

end CodeSurvey
