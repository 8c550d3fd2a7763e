-- What a store refuses leaves no trace in it. A store is as it was when it fails, so
-- all later answers, and the ids of what is stored later, are as if the request had
-- not been made. Of files that are stored together none is stored when one cannot be,
-- and of facts and edges that are written together none is when one is refused.
import CodeSurvey.Proofs.Store.Request
import CodeSurvey.Proofs.Store.Statement

namespace CodeSurvey

section Store

variable {σ : Type} [Storage σ]

/-- The file cannot be stored behind others: its repository is not known, or its path there is
that of one of the others or of a stored file. -/
def Unstorable (s : σ) (front : List NewFile) (f : NewFile) : Prop :=
  (Storage.repository f.repository s).1 = .ok none ∨ (∃ g ∈ front, g.key = f.key) ∨
    ∃ fs, (Storage.files f.repository s).1 = .ok fs ∧ ∃ g ∈ fs, g.key = f.key

/-- What a store keeps to when it refuses something. -/
structure RefusesCleanly (s : σ) : Prop where
  /-- Behind a request that is refused, a run leads where it leads without the request, and is
  answered as it is without it. -/
  request (r : StoreRequest) (e : Failure) : (r.perform s).1 = .error e → ∀ later,
    Storage.after s (r :: later) = Storage.after s later ∧
      Storage.answers s (r :: later) = .error e :: Storage.answers s later
  /-- A file that cannot be stored keeps all those from being stored that come with it. -/
  batch (front rest : List NewFile) (f : NewFile) : Unstorable s front f →
    ∃ e, Storage.insertFiles (front ++ f :: rest) s = (.error e, s)
  /-- An edge that does not start at the file keeps all facts and edges from being replaced. -/
  edges (file : Int64) (repository : String) (facts : List Fact) (front rest : List Edge)
    (e : Edge) : ¬ (e.sourceFile = file ∧ e.repository = repository) →
    ∃ err, Storage.replaceFacts file repository facts (front ++ e :: rest) s = (.error err, s)

/-- The later part of a run follows from the state alone. -/
theorem later_of_same {s : σ} {r : StoreRequest} {e : Failure} (h : (r.perform s).1 = .error e)
    (hs : (r.perform s).2 = s) (later : List StoreRequest) :
    Storage.after s (r :: later) = Storage.after s later ∧
      Storage.answers s (r :: later) = .error e :: Storage.answers s later := by
  constructor
  · rw [Storage.after_cons, hs]
  · rw [Storage.answers, h, hs]

end Store

theorem checkEdges_foreign {file : Int64} {repository : String} (front rest : List Edge) {e : Edge}
    (h : ¬ (e.sourceFile = file ∧ e.repository = repository)) :
    ∃ err, checkEdges file repository (front ++ e :: rest) = .error err := by
  cases hcheck : checkEdges file repository (front ++ e :: rest) with
  | error err => exact ⟨err, rfl⟩
  | ok _ => exact absurd (checkEdges_iff.1 hcheck e (by simp)) h

/-! ## The store in memory -/

namespace MemoryStore

theorem insertFiles_refused {s : MemoryStore} {new : List NewFile} {e : Failure}
    (h : (insertFiles new s).1 = .error e) : (insertFiles new s).2 = s := by
  rcases s.insertFiles_cases new with ⟨_, hrun, -⟩ | ⟨_, _, hrun, -⟩
  · rw [hrun]
  · rw [hrun] at h
    cases h

theorem replaceFacts_refused {s : MemoryStore} {file : Int64} {repository : String}
    {facts : List Fact} {edges : List Edge} {e : Failure}
    (h : (replaceFacts file repository facts edges s).1 = .error e) :
    (replaceFacts file repository facts edges s).2 = s := by
  rcases s.replaceFacts_cases file repository facts edges with ⟨_, hrun, -⟩ | ⟨_, _, _, hrun, -⟩
  · rw [hrun]
  · rw [hrun] at h
    cases h

theorem deleteRepository_answered (s : MemoryStore) (id : String) :
    (deleteRepository id s).1 = .ok (s.knows id) := by
  unfold deleteRepository
  split <;> simp [*]

/-- The store in memory checks what it is given before it changes anything. -/
theorem refused {s : MemoryStore} {r : StoreRequest} {e : Failure}
    (h : (r.perform s).1 = .error e) : (r.perform s).2 = s := by
  cases r with
  | insertFiles new => exact insertFiles_refused (Command.telling_error.1 h)
  | replaceFacts file repository facts edges =>
    exact replaceFacts_refused (Command.telling_error.1 h)
  | clearFiles repository => cases h
  | updateRepository id u =>
    obtain ⟨s', hrun, -⟩ := s.updateRepository_contents id u
    cases (congrArg Prod.fst hrun).symm.trans (Command.telling_error.1 h)
  | deleteRepository id =>
    cases (deleteRepository_answered s id).symm.trans (Command.telling_error.1 h)
  | files repository => rfl
  | factsOfFile file => rfl
  | facts repository => rfl
  | edges repository => rfl
  | repository id => rfl

theorem not_admits_of_unstorable {s : MemoryStore} {front : List NewFile} {f : NewFile}
    (rest : List NewFile) (h : Unstorable s front f) :
    ¬ s.contents.Admits (front ++ f :: rest) := by
  intro hadmits
  have hmem : f ∈ front ++ f :: rest := by simp
  rcases h with hunknown | ⟨g, hg, hkey⟩ | ⟨fs, hfs, g, hg, hkey⟩
  · have hnone : s.contents.repositoryOf f.repository = none := Except.ok.inj hunknown
    have hknown := hadmits.known f hmem
    rw [Contents.unknown_of_repositoryOf hnone] at hknown
    cases hknown
  · have hdistinct := hadmits.distinct
    rw [List.map_append] at hdistinct
    exact (List.nodup_append.1 hdistinct).2.2 g.key (List.mem_map_of_mem hg) f.key (by simp) hkey
  · have hfree := hadmits.free f hmem
    rw [← Bool.not_eq_true] at hfree
    obtain rfl := Except.ok.inj hfs
    exact hfree (Contents.hasPath_iff.2 ⟨g, (List.mem_filter.1 hg).1, hkey⟩)

theorem refusesCleanly (s : MemoryStore) : RefusesCleanly s where
  request _ _ h := later_of_same h (refused h)
  batch front rest f h := by
    rcases s.insertFiles_cases (front ++ f :: rest) with ⟨e, hrun, -⟩ | ⟨_, _, -, hadmits, -⟩
    · exact ⟨e, hrun⟩
    · exact absurd hadmits (not_admits_of_unstorable rest h)
  edges file repository facts front rest e h := by
    rcases s.replaceFacts_cases file repository facts (front ++ e :: rest) with ⟨err, hrun, -⟩ |
      ⟨_, _, _, -, hcheck, -⟩
    · exact ⟨err, hrun⟩
    · exact absurd (checkEdges_iff.1 hcheck e (by simp)) h

end MemoryStore

/-! ## The database -/

namespace Relational.Database

/-- Every request that writes more than one row stands in a transaction. -/
theorem refused {d : Database} {r : StoreRequest} {e : Failure}
    (h : (r.perform d).1 = .error e) : (r.perform d).2 = d := by
  cases r with
  | insertFiles new => exact transaction_refused (Command.telling_error.1 h)
  | replaceFacts file repository facts edges =>
    have hrun := Command.telling_error.1 h
    change (Storage.replaceFacts file repository facts edges d).2 = d
    simp only [Storage.replaceFacts] at hrun ⊢
    cases hcheck : checkEdges file repository edges with
    | error err => rfl
    | ok _ =>
      simp only [hcheck] at hrun
      exact transaction_refused hrun
  | clearFiles repository => cases h
  | updateRepository id u => exact transaction_refused (Command.telling_error.1 h)
  | deleteRepository id => cases h
  | files repository => rfl
  | factsOfFile file => rfl
  | facts repository => rfl
  | edges repository => rfl
  | repository id => rfl

/-- The file cannot be stored as the tables stand. -/
def Rejects (d : Database) (f : NewFile) : Prop :=
  d.hasRepository f.repository = false ∨ d.hasPath f.repository f.path = true

theorem insertFile_rejected {d : Database} {f : NewFile} (h : d.Rejects f) :
    ∃ e d', insertFile f d = (.error e, d') := by
  cases hrun : insertFile f d with
  | mk a d' =>
    cases a with
    | error e => exact ⟨e, d', rfl⟩
    | ok g =>
      obtain ⟨id, -, -, hknown, hfree, -⟩ := insertFile_answered hrun
      rcases h with h | h
      · rw [h] at hknown
        cases hknown
      · rw [h] at hfree
        cases hfree

/-- What cannot be stored cannot be stored behind another file, either. -/
theorem Rejects.behind {d d' : Database} {f g : NewFile} {stored : StoredFile}
    (h : d.Rejects f ∨ g.key = f.key) (hrun : insertFile g d = (.ok stored, d')) :
    d'.Rejects f := by
  obtain ⟨id, -, -, -, -, rfl⟩ := insertFile_answered hrun
  simp only [Rejects, hasRepository, hasPath, List.any_append, Bool.or_eq_true]
  rcases h with h | hkey
  · exact h.imp_right .inl
  · obtain ⟨hrepository, hpath⟩ := Prod.mk.inj hkey
    refine .inr (.inr ?_)
    simp [FileRow.ofFile, hrepository, hpath]

/-- A file that cannot be stored ends the batch, if no file before it does. -/
theorem collect_insertFile_rejected {d : Database} {front : List NewFile} {f : NewFile}
    (rest : List NewFile) (h : d.Rejects f ∨ ∃ g ∈ front, g.key = f.key) :
    ∃ e d', Command.collect insertFile (front ++ f :: rest) d = (.error e, d') := by
  induction front generalizing d with
  | nil =>
    obtain ⟨e, d', hrun⟩ := insertFile_rejected (h.resolve_right (by simp))
    exact ⟨e, d', by simp only [List.nil_append, Command.collect, Command.andThen, hrun]⟩
  | cons g front ih =>
    cases hrun : insertFile g d with
    | mk a d' =>
      cases a with
      | error e =>
        exact ⟨e, d', by simp only [List.cons_append, Command.collect, Command.andThen, hrun]⟩
      | ok stored =>
        have hnext : d'.Rejects f ∨ ∃ g ∈ front, g.key = f.key := by
          rcases h with h | ⟨x, hx, hkey⟩
          · exact .inl (Rejects.behind (.inl h) hrun)
          · rcases List.mem_cons.1 hx with rfl | hx
            · exact .inl (Rejects.behind (.inr hkey) hrun)
            · exact .inr ⟨x, hx, hkey⟩
        obtain ⟨e, d'', hrest⟩ := ih hnext
        refine ⟨e, d'', ?_⟩
        simp only [List.cons_append, Command.collect, Command.andThen, hrun, hrest]

theorem hasRepository_of_unknown {d : Database} {id : String}
    (h : (Storage.repository id d).1 = .ok none) : d.hasRepository id = false := by
  simp only [Storage.repository, query, Command.ask, selectRepository] at h
  split at h
  · rename_i hnone
    rw [hasRepository, List.any_eq_false]
    exact List.find?_eq_none.1 hnone
  · rename_i row _
    cases hrow : row.toRepository with
    | ok r => simp [hrow, Functor.map, Except.map, Except.mapError] at h
    | error i => simp [hrow, Functor.map, Except.map, Except.mapError] at h

theorem rejects_of_unstorable {d : Database} {front : List NewFile} {f : NewFile}
    (h : Unstorable d front f) : d.Rejects f ∨ ∃ g ∈ front, g.key = f.key := by
  rcases h with hunknown | hfront | ⟨fs, hfs, g, hg, hkey⟩
  · exact .inl (.inl (hasRepository_of_unknown hunknown))
  · exact .inr hfront
  · cases hread : selectFiles f.repository d with
    | error i => simp [Storage.files, query, Command.ask, hread, Except.mapError] at hfs
    | ok gs =>
      simp only [Storage.files, query, Command.ask, hread, Except.mapError, Except.ok.injEq] at hfs
      subst hfs
      obtain ⟨row, hrow, hr⟩ := exists_of_mem_left (forall₂_of_mapM_eq_ok hread).flip hg
      obtain ⟨-, hrepository, hpath⟩ := FileRow.eq_of_toFile hr
      obtain ⟨hsame, hplace⟩ := Prod.mk.inj hkey
      refine .inl (.inr (List.any_eq_true.2 ⟨row, (List.mem_filter.1 hrow).1, ?_⟩))
      simp [hrepository, hpath, hsame, hplace]

theorem refusesCleanly (d : Database) : RefusesCleanly d where
  request _ _ h := later_of_same h (refused h)
  batch front rest f h := by
    obtain ⟨e, d', hrun⟩ := collect_insertFile_rejected rest (rejects_of_unstorable h)
    exact ⟨e, transaction_error hrun⟩
  edges file repository facts front rest e h := by
    obtain ⟨err, hcheck⟩ := checkEdges_foreign front rest h
    exact ⟨err, by simp only [Storage.replaceFacts, hcheck]; rfl⟩

end Relational.Database

/-- What is refused leaves no trace, in memory or in the database. Both stores are as they were
behind whatever failed, and what cannot be stored keeps the rest of its request from being
stored. -/
theorem refusals_leave_no_trace (s : MemoryStore) (d : Relational.Database) :
    RefusesCleanly s ∧ RefusesCleanly d :=
  ⟨s.refusesCleanly, d.refusesCleanly⟩

/-- A repository is made, and one file is stored. -/
def oneFileRun : List StoreRequest :=
  [.updateRepository "r" .empty, .insertFiles [sampleFile "a.py"]]

/-- Where a path is taken, the file that comes before the second one for it is not stored,
either. -/
theorem refusals_leave_no_trace_of_taken_path :
    (∃ e, Storage.insertFiles [sampleFile "b.py", sampleFile "a.py"]
        (Storage.after MemoryStore.empty oneFileRun) =
      (.error e, Storage.after MemoryStore.empty oneFileRun)) ∧
    ∃ e, Storage.insertFiles [sampleFile "b.py", sampleFile "a.py"]
        (Storage.after Relational.Database.fresh oneFileRun) =
      (.error e, Storage.after Relational.Database.fresh oneFileRun) := by
  obtain ⟨hmemory, hdatabase⟩ :=
    refusals_leave_no_trace (Storage.after MemoryStore.empty oneFileRun)
      (Storage.after Relational.Database.fresh oneFileRun)
  have hkey : ∃ g ∈ [(⟨sampleFile "a.py", 1⟩ : StoredFile)], g.key = (sampleFile "a.py").key :=
    ⟨⟨sampleFile "a.py", 1⟩, by simp, rfl⟩
  exact ⟨hmemory.batch [sampleFile "b.py"] [] (sampleFile "a.py") (.inr (.inr ⟨_, rfl, hkey⟩)),
    hdatabase.batch [sampleFile "b.py"] [] (sampleFile "a.py") (.inr (.inr ⟨_, rfl, hkey⟩))⟩

end CodeSurvey
