-- What the database keeps of the records that it said it stored. A file or a repository
-- is yielded as it was returned, until it is removed or updated, but for the numbers
-- from `2 ^ 63` on: they turn negative in their column, and are read back as zero.
import CodeSurvey.Proofs.Store.Ownership
import CodeSurvey.Proofs.Store.Standing

namespace CodeSurvey

/-! ## Records that come back -/

/-- What comes back of a number that was written to a column of whole numbers. -/
def keptNumber (n : UInt64) : UInt64 := if FitsColumn n then n else 0

theorem keptNumber_eq_iff {n : UInt64} : keptNumber n = n ↔ FitsColumn n := by
  unfold keptNumber
  split
  · simpa
  · rename_i hn
    refine iff_of_false (fun heq => hn ?_) hn
    rw [← heq]
    exact fitsColumn_zero

/-- The counts that pairs give one after the other are the pairs, where no language is twice. -/
theorem Breakdown.ofPairs_distinct {b : Breakdown} (h : b.Distinct) : ofPairs b = b :=
  foldl_put [] b (by simpa using h)

/-- What comes back of a file. -/
def StoredFile.kept (f : StoredFile) : StoredFile := { f with size := keptNumber f.size }

/-- What comes back of a repository. -/
def Repository.kept (r : Repository) : Repository :=
  { r with
    totalFiles := keptNumber r.totalFiles
    totalSize := keptNumber r.totalSize
    languages := Breakdown.ofPairs r.languages }

theorem StoredFile.kept_eq_iff {f : StoredFile} : f.kept = f ↔ FitsColumn f.size := by
  rw [← keptNumber_eq_iff]
  constructor
  · exact congrArg fun f : StoredFile => f.size
  · intro h
    unfold kept
    rw [h]

theorem Repository.kept_eq_iff {r : Repository} (h : r.languages.Distinct) :
    r.kept = r ↔ FitsColumn r.totalFiles ∧ FitsColumn r.totalSize := by
  rw [← keptNumber_eq_iff, ← keptNumber_eq_iff]
  constructor
  · exact fun heq => ⟨congrArg (·.totalFiles) heq, congrArg (·.totalSize) heq⟩
  · rintro ⟨hfiles, hsize⟩
    unfold kept
    rw [hfiles, hsize, Breakdown.ofPairs_distinct h]

namespace Relational

theorem Cell.toUInt64_ofUInt64_eq (n : UInt64) (index : Nat) (column : String) :
    (Cell.ofUInt64 n).toUInt64 index column = .ok (keptNumber n) := by
  unfold keptNumber
  split
  · rename_i hn
    exact Cell.toUInt64_ofUInt64 hn index column
  · rename_i hn
    have hneg : n.toInt64 < 0 := by
      have hbig : 2 ^ 63 ≤ n.toNat := Nat.le_of_not_lt hn
      have hsmall := n.toNat_lt
      have hvalue : n.toInt64.toInt = (n.toNat : Int).bmod (2 ^ 64) := by
        rw [← UInt64.ofNat_toNat (x := n), UInt64.toInt64_ofNat', Int64.toInt_ofNat']
        simp
      rw [Int64.lt_iff_toInt_lt, hvalue, Int64.toInt_zero]
      simp only [Int.bmod]
      omega
    simp [Cell.ofUInt64, Cell.toUInt64, Cell.toInt64, bind, Except.bind, pure, Except.pure, hneg]

theorem FileRow.toFile_ofFile_eq (f : StoredFile) :
    (FileRow.ofFile f.id f.toNewFile).toFile = .ok f.kept := by
  simp [ofFile, toFile, Cell.toUInt64_ofUInt64_eq, StoredFile.kept, bind, Except.bind, pure,
    Except.pure]

theorem RepositoryRow.toRepository_ofRepository_eq (r : Repository) :
    (RepositoryRow.ofRepository r).toRepository = .ok r.kept := by
  have hlanguages : Breakdown.ofText r.languages.text = .ok (Breakdown.ofPairs r.languages) :=
    (Json.decodeMap_counts Breakdown.put [] r.languages).decode
  simp [ofRepository, toRepository, converted, RepositoryStatus.ofName_name,
    Cell.toUInt64_ofUInt64_eq, hlanguages, Repository.kept, Except.mapError, bind, Except.bind,
    pure, Except.pure]

end Relational

/-! ## Requests that leave a record alone -/

/-- The request removes no file of the repository. -/
def StoreRequest.SparesFilesOf (repository : String) : StoreRequest → Prop
  | .clearFiles id | .deleteRepository id => id ≠ repository
  | _ => True

/-- The request does not touch the record of the repository. -/
def StoreRequest.SparesRecordOf (repository : String) : StoreRequest → Prop
  | .updateRepository id _ | .deleteRepository id => id ≠ repository
  | _ => True

namespace Contents

variable {c c' : Contents} {r : StoreRequest}

theorem Becomes.mem_files (hbec : c.Becomes r c') {f : StoredFile} (hf : f ∈ c.files)
    (hspared : r.SparesFilesOf f.repository) : f ∈ c'.files := by
  cases hbec with
  | same _ => exact hf
  | insertFiles _ _ _ => exact List.mem_append_left _ hf
  | clearFiles repository =>
    have hne : repository ≠ f.repository := hspared
    exact List.mem_filter.2 ⟨hf, bne_iff_ne.2 hne.symm⟩
  | replaceFacts _ _ _ _ => exact hf
  | updateRepository _ _ => exact hf
  | unknownRepository _ => exact hf
  | @deleteRepository id _ _ _ _ =>
    have hne : id ≠ f.repository := hspared
    exact List.mem_filter.2 ⟨hf, bne_iff_ne.2 hne.symm⟩

theorem repositoryOf_putRepository (c : Contents) (r : Repository) (id : String) :
    (c.putRepository r).repositoryOf id = if r.id = id then some r else c.repositoryOf id :=
  find?_put (fun o : Repository => o.id) c.repositories r id

theorem Becomes.repositoryOf (hbec : c.Becomes r c') {id : String}
    (hspared : r.SparesRecordOf id) : c'.repositoryOf id = c.repositoryOf id := by
  cases hbec with
  | same _ => rfl
  | insertFiles _ _ _ => rfl
  | clearFiles _ => rfl
  | replaceFacts _ _ _ _ => rfl
  | updateRepository _ record =>
    have hne : record.id ≠ id := hspared
    rw [repositoryOf_putRepository, if_neg hne]
  | unknownRepository _ => rfl
  | @deleteRepository other _ _ _ _ =>
    have hne : other ≠ id := hspared
    simp only [Contents.repositoryOf, Contents.delete, List.find?_filter]
    congr 1
    funext o
    by_cases ho : o.id = id
    · simp [ho, hne.symm]
    · simp [ho]

end Contents

/-! ## What is yielded -/

/-- The store yields the file among those of its repository, and no other one under its id. -/
def Yields {σ : Type} [Storage σ] (s : σ) (f : StoredFile) : Prop :=
  ∃ fs, (Storage.files f.repository s).1 = .ok fs ∧ fs.filter (fun g => g.id == f.id) = [f]

/-- Files that are told by their ids are found by them. -/
theorem filter_id_eq {fs : List StoredFile} (h : (fs.map (·.id)).Nodup) {f : StoredFile}
    (hf : f ∈ fs) : fs.filter (fun g => g.id == f.id) = [f] := by
  refine List.perm_singleton.1 ((List.perm_ext_iff_of_nodup (h.of_map.filter _)
    (List.nodup_singleton f)).2 fun g => ?_)
  rw [List.mem_filter, List.mem_singleton, beq_iff_eq]
  constructor
  · rintro ⟨hg, hid⟩
    exact List.inj_on_of_nodup_map h hg hf hid
  · rintro rfl
    exact ⟨hf, rfl⟩

theorem AnswersFrom.yields {σ : Type} [Storage σ] {s : σ} {c : Contents} (h : AnswersFrom s c)
    (hd : c.Distinct) {f : StoredFile} (hf : f ∈ c.files) : Yields s f :=
  ⟨_, h.files f.repository, filter_id_eq (hd.sublist (List.filter_sublist.map _))
    (List.mem_filter.2 ⟨hf, beq_self_eq_true _⟩)⟩

namespace Relational.Database

variable {d d' : Database} {c : Contents}

/-- Each file that was stored has a row of its own, with its id. -/
theorem rows_of_collect_insertFile {new : List NewFile} {stored : List StoredFile}
    (hrun : Command.collect insertFile new d = (.ok stored, d')) :
    d'.files.rows = d.files.rows ++ stored.map (fun f => FileRow.ofFile f.id f.toNewFile) := by
  induction new generalizing d stored with
  | nil =>
    obtain ⟨hstored, rfl⟩ := Prod.mk.inj hrun
    obtain rfl := Except.ok.inj hstored
    simp
  | cons f new ih =>
    obtain ⟨first, mid, hfirst, hrest⟩ := Command.of_andThen_ok hrun
    obtain ⟨others, mid', hothers, hanswer⟩ := Command.of_andThen_ok hrest
    obtain ⟨hstored, rfl⟩ := Prod.mk.inj hanswer
    obtain rfl := Except.ok.inj hstored
    obtain ⟨id, -, rfl, -, -, rfl⟩ := insertFile_answered hfirst
    rw [ih hothers]
    simp

/-- What was stored of the files that were returned is what comes back of them. -/
theorem kept_of_insertFiles (h : d.Keeps c) (hd : c.Distinct) {new : List NewFile}
    {stored : List StoredFile} (hrun : (Storage.insertFiles new d).1 = .ok stored) :
    ∃ c', (Storage.insertFiles new d).2.Keeps c' ∧ c'.Distinct ∧
      ∀ f ∈ stored, f.kept ∈ c'.files := by
  have hcollect := transaction_answered (Prod.ext hrun rfl)
  obtain ⟨_, hkept, -, -, hdistinct⟩ := collect_insertFile_leaves h hd hcollect
  refine ⟨_, hkept, hdistinct, fun f hf => ?_⟩
  have hrow : FileRow.ofFile f.id f.toNewFile ∈ (Storage.insertFiles new d).2.files.rows := by
    have hrows := rows_of_collect_insertFile hcollect
    change (Storage.insertFiles new d).2.files.rows = _ at hrows
    rw [hrows]
    exact List.mem_append_right _ (List.mem_map_of_mem hf)
  obtain ⟨g, hg, hread⟩ := exists_of_mem_left hkept.files hrow
  rw [FileRow.toFile_ofFile_eq, Except.ok.injEq] at hread
  rwa [hread]

/-- A record that can be read is written back with the update. -/
theorem updateRow_of_select {id : String} {old : Option Repository}
    (h : selectRepository id d = .ok old) (u : RepositoryUpdate) :
    updateRow id u d = (.ok ((old.getD (Repository.fresh id)).apply u),
      (upsertRepository (.ofRepository ((old.getD (Repository.fresh id)).apply u)) d).2) := by
  simp only [updateRow, query, Command.andThen, Command.ask, h, Except.mapError,
    Command.followedBy, Command.answer, upsertRepository]

/-- What was stored of the record that was returned is what comes back of it. -/
theorem kept_of_updateRepository (h : d.Keeps c) (id : String) (u : RepositoryUpdate) :
    (Storage.updateRepository id u d).1 = .ok (c.updated id u) ∧
      (Storage.updateRepository id u d).2.Keeps (c.putRepository (c.updated id u).kept) := by
  have hupdate : Storage.updateRepository id u d = _ :=
    transaction_ok (updateRow_of_select (selectRepository_eq h id) u)
  rw [hupdate]
  exact ⟨rfl, upsertRepository_keeps h (RepositoryRow.toRepository_ofRepository_eq _)⟩

/-- A stored file stays as long as none of its repository is removed. -/
theorem mem_files_after (h : d.Keeps c) (hd : c.Distinct) {f : StoredFile} (hf : f ∈ c.files)
    (run : List StoreRequest) (hspared : ∀ r ∈ run, r.SparesFilesOf f.repository) :
    ∃ c', (Storage.after d run).Keeps c' ∧ c'.Distinct ∧ f ∈ c'.files := by
  induction run generalizing d c with
  | nil => exact ⟨c, h, hd, hf⟩
  | cons r rest ih =>
    obtain ⟨hr, hrest⟩ := List.forall_mem_cons.1 hspared
    rw [Storage.after_cons]
    cases hanswer : (r.perform d).1 with
    | error e =>
      rw [refused hanswer]
      exact ih h hd hf hrest
    | ok a =>
      obtain ⟨c', hkept, hbec, -⟩ := answered h hd hanswer
      exact ih hkept (hbec.distinct hd) (hbec.mem_files hf hr) hrest

/-- The record of a repository stays as long as it is neither updated nor removed. -/
theorem repositoryOf_after (h : d.Keeps c) (hd : c.Distinct) {id : String}
    (run : List StoreRequest) (hspared : ∀ r ∈ run, r.SparesRecordOf id) :
    ∃ c', (Storage.after d run).Keeps c' ∧ c'.repositoryOf id = c.repositoryOf id := by
  induction run generalizing d c with
  | nil => exact ⟨c, h, rfl⟩
  | cons r rest ih =>
    obtain ⟨hr, hrest⟩ := List.forall_mem_cons.1 hspared
    rw [Storage.after_cons]
    cases hanswer : (r.perform d).1 with
    | error e =>
      rw [refused hanswer]
      exact ih h hd hrest
    | ok a =>
      obtain ⟨c', hkept, hbec, -⟩ := answered h hd hanswer
      obtain ⟨c'', hkept', hsame⟩ := ih hkept (hbec.distinct hd) hrest
      exact ⟨c'', hkept', hsame.trans (hbec.repositoryOf hr)⟩

end Relational.Database

open Relational

/-- Each file that the database returned is yielded until a request removes the files of its
repository, and each record of a repository that it returned until a request updates or removes
that. They are yielded as they were returned exactly where their numbers are below `2 ^ 63`; the
other numbers come back as zero. -/
theorem yielded_as_kept (before later : List StoreRequest) :
    (∀ new stored, (Storage.insertFiles new (Storage.after Database.fresh before)).1 = .ok stored →
      ∀ f ∈ stored, (∀ r ∈ later, r.SparesFilesOf f.repository) →
        Yields (Storage.after Database.fresh (before ++ .insertFiles new :: later)) f.kept ∧
        (f.kept = f ↔ FitsColumn f.size)) ∧
    ∀ id u, ∃ r, (Storage.updateRepository id u (Storage.after Database.fresh before)).1 = .ok r ∧
      ((∀ q ∈ later, q.SparesRecordOf id) →
        (Storage.repository id
          (Storage.after Database.fresh (before ++ .updateRepository id u :: later))).1 =
            .ok (some r.kept)) ∧
      (r.languages.Distinct → (r.kept = r ↔ FitsColumn r.totalFiles ∧ FitsColumn r.totalSize)) := by
  obtain ⟨c, hkeeps, hd, -⟩ := Database.keeps_after before
  constructor
  · intro new stored hrun f hf hspared
    obtain ⟨c', hkept, hd', hstored⟩ := Database.kept_of_insertFiles hkeeps hd hrun
    obtain ⟨c'', hkept', hd'', hmem⟩ :=
      Database.mem_files_after hkept hd' (hstored f hf) later hspared
    rw [Storage.after_append, Storage.after_cons]
    exact ⟨(LawfulStorage.answersFrom hkept').yields hd'' hmem, StoredFile.kept_eq_iff⟩
  · intro id u
    obtain ⟨hrun, hkept⟩ := Database.kept_of_updateRepository hkeeps id u
    refine ⟨c.updated id u, hrun, fun hspared => ?_, Repository.kept_eq_iff⟩
    obtain ⟨c', hkept', hsame⟩ :=
      Database.repositoryOf_after hkept (c := c.putRepository _) hd later hspared
    have hid : (c.updated id u).kept.id = id := c.updated_id id u
    rw [Contents.repositoryOf_putRepository, if_pos hid] at hsame
    rw [Storage.after_append, Storage.after_cons, ← hsame]
    exact (LawfulStorage.answersFrom hkept').repository id

/-- Requests for another repository leave a file as it was returned. -/
theorem yielded_as_kept_of_sample :
    (Storage.insertFiles [sampleFile "a.py"]
      (Storage.after Database.fresh [.updateRepository "r" .empty])).1 =
        .ok [⟨sampleFile "a.py", 1⟩] ∧
      Yields (Storage.after Database.fresh [.updateRepository "r" .empty,
        .insertFiles [sampleFile "a.py"], .updateRepository "s" .empty, .clearFiles "s"])
        ⟨sampleFile "a.py", 1⟩ := by
  have hstored : (Storage.insertFiles [sampleFile "a.py"]
      (Storage.after Database.fresh [.updateRepository "r" .empty])).1 =
        .ok [⟨sampleFile "a.py", 1⟩] := rfl
  have hspared : ∀ r ∈ [StoreRequest.updateRepository "s" .empty, .clearFiles "s"],
      r.SparesFilesOf "r" := by
    simp [StoreRequest.SparesFilesOf]
  obtain ⟨hyields, heq⟩ := (yielded_as_kept [.updateRepository "r" .empty]
    [.updateRepository "s" .empty, .clearFiles "s"]).1 _ _ hstored _
      (List.mem_singleton_self _) hspared
  exact ⟨hstored, by rwa [heq.2 (by decide)] at hyields⟩

/-- A file whose size needs the bit of the sign. -/
def wideFile : NewFile := { sampleFile "a.py" with size := 0x8000000000000000 }

/-- The file is not yielded with the size that it was returned with, and the record of its
repository not with the total. -/
theorem not_yielded_of_wide_numbers :
    let d := Storage.after Database.fresh [.updateRepository "r" .empty]
    let u := { RepositoryUpdate.empty with totalSize := some 0x8000000000000000 }
    (Storage.insertFiles [wideFile] d).1 = .ok [⟨wideFile, 1⟩] ∧
      ¬ Yields (Storage.after d [.insertFiles [wideFile]]) ⟨wideFile, 1⟩ ∧
      (Storage.updateRepository "r" u d).1 = .ok ((Repository.fresh "r").apply u) ∧
      (Storage.repository "r" (Storage.after d [.updateRepository "r" u])).1 ≠
        .ok (some ((Repository.fresh "r").apply u)) := by
  refine ⟨rfl, ?_, rfl, ?_⟩
  · rintro ⟨fs, hfs, hone⟩
    obtain rfl : [⟨{ wideFile with size := 0 }, 1⟩] = fs := Except.ok.inj hfs
    exact absurd hone (by decide)
  · intro h
    have hread : Except.ok (some { Repository.fresh "r" with totalSize := 0 }) = _ := h
    cases hread

end CodeSurvey
