-- What an update of a repository changes in a store: the record of that repository,
-- and nothing else that the store can be asked for. A record that was read can be
-- written again without a change, since it fits the columns that it comes from.
import CodeSurvey.Proofs.Store.Kept

namespace CodeSurvey

open Json

/-! ## Records that were read -/

theorem Breakdown.mem_put {language : String} {count : UInt64} {b : Breakdown} {l : String} :
    l ∈ (put language count b).map (·.1) ↔ l = language ∨ l ∈ b.map (·.1) := by
  induction b with
  | nil => simp [put]
  | cons e b ih =>
    unfold put
    split
    · rename_i heq
      simp [heq]
    · simp only [List.map_cons, List.mem_cons, ih]
      exact or_left_comm

/-- A count that is put keeps the languages different. -/
theorem Breakdown.Distinct.put {b : Breakdown} (h : b.Distinct) (language : String)
    (count : UInt64) : (Breakdown.put language count b).Distinct := by
  induction b with
  | nil => exact List.nodup_singleton _
  | cons e b ih =>
    obtain ⟨hnew, hrest⟩ := List.nodup_cons.1 h
    unfold Breakdown.put
    split
    · exact h
    · rename_i hne
      refine List.nodup_cons.2 ⟨?_, ih hrest⟩
      rw [Breakdown.mem_put]
      rintro (heq | hmem)
      · exact hne heq
      · exact hnew hmem

/-- What every entry of an object keeps, the object keeps. -/
theorem decodeEntries_keeps {σ : Type} {P : σ → Prop} {step : σ → String → Decoder σ}
    (hstep : ∀ s key c s' c', P s → step s key c = .ok (s', c') → P s') {fuel : Nat}
    {first : Bool} {s s' : σ} {c c' : Cursor} (hs : P s)
    (h : decodeEntries step fuel first s c = .ok (s', c')) : P s' := by
  induction fuel generalizing first s c with
  | zero => cases h
  | succ fuel ih =>
    obtain ⟨⟨more, ahead⟩, -, h⟩ := exists_of_bind_ok h
    cases more with
    | true =>
      obtain ⟨⟨key, behind⟩, -, h⟩ := exists_of_bind_ok h
      obtain ⟨⟨next, rest⟩, hnext, h⟩ := exists_of_bind_ok h
      exact ih (hstep s key behind next rest hs hnext) h
    | false =>
      obtain ⟨rfl, -⟩ := Prod.mk.inj (Except.ok.inj h)
      exact hs

theorem wrongType_fails {α : Type} {expected : String} {h : Char} {c : Cursor} {a : α × Cursor}
    (heq : wrongType expected h c = .ok a) : False := by
  unfold wrongType at heq
  dsimp only [Cursor.fault, Cursor.faultAhead] at heq
  repeat' split at heq
  all_goals
    first
    | cases heq
    | obtain ⟨_, -, heq⟩ := exists_of_bind_ok heq
      cases heq

/-- Counts of languages that were read are counts of different languages. -/
theorem Breakdown.distinct_of_ofText {s : String} {b : Breakdown} (h : ofText s = .ok b) :
    b.Distinct := by
  obtain ⟨⟨read, c⟩, hread, h⟩ := exists_of_bind_ok h
  have hb : read = b := by
    dsimp only at h
    split at h
    · exact Except.ok.inj h
    · cases h
  obtain ⟨⟨mark, start⟩, -, hread⟩ := exists_of_bind_ok hread
  dsimp only at hread
  split at hread
  · obtain ⟨⟨counts, behind⟩, hcounts, hread⟩ := exists_of_bind_ok hread
    obtain ⟨_, -, hread⟩ := exists_of_bind_ok hread
    obtain ⟨rfl, -⟩ := Prod.mk.inj (Except.ok.inj hread)
    rw [← hb]
    have hempty : Distinct [] := List.nodup_nil
    refine decodeEntries_keeps (fun b key c b' c' hd hstep => ?_) hempty hcounts
    obtain ⟨_, -, hstep⟩ := exists_of_bind_ok hstep
    obtain ⟨⟨count, _⟩, -, hstep⟩ := exists_of_bind_ok hstep
    obtain ⟨rfl, -⟩ := Prod.mk.inj (Except.ok.inj hstep)
    exact hd.put key count
  · exact (wrongType_fails hread).elim

namespace Relational

theorem Cell.fits_of_toUInt64 {c : Cell} {index : Nat} {column : String} {n : UInt64}
    (h : c.toUInt64 index column = .ok n) : FitsColumn n := by
  obtain ⟨m, -, h⟩ := exists_of_bind_ok h
  obtain rfl := Except.ok.inj h
  split
  · exact fitsColumn_zero
  · rename_i hpos
    have hvalue : m.toUInt64.toNat = m.toInt.toNat :=
      Int64.toNat_toUInt64_of_le (Int64.not_lt.1 hpos)
    have hbound := Int64.toInt_lt m
    have hsize : (Text.wordSize 63 : Int) = 2 ^ 63 := rfl
    unfold FitsColumn
    omega

/-- A record that was read from a row fits it. -/
theorem RepositoryRow.fits_of_toRepository {row : RepositoryRow} {r : Repository}
    (h : row.toRepository = .ok r) : r.Fits := by
  obtain ⟨status, -, h⟩ := exists_of_bind_ok h
  obtain ⟨files, hfiles, h⟩ := exists_of_bind_ok h
  obtain ⟨size, hsize, h⟩ := exists_of_bind_ok h
  obtain ⟨languages, hlanguages, h⟩ := exists_of_bind_ok h
  obtain rfl := Except.ok.inj h
  refine ⟨Cell.fits_of_toUInt64 hfiles, Cell.fits_of_toUInt64 hsize, ?_⟩
  cases hread : Breakdown.ofText row.languages with
  | error e =>
    rw [hread] at hlanguages
    cases hlanguages
  | ok b =>
    rw [hread] at hlanguages
    obtain rfl := Except.ok.inj hlanguages
    exact Breakdown.distinct_of_ofText hread

end Relational

/-! ## Stores that update records alone -/

/-- The record that an update makes of the one that was read. -/
def Repository.updated (id : String) (old : Option Repository) (u : RepositoryUpdate) : Repository :=
  (old.getD (Repository.fresh id)).apply u

section Elsewhere

variable {σ : Type} [Storage σ]

/-- Two states of a store give the same answer to every question but that for one record. -/
structure SameElsewhere (id : String) (s s' : σ) : Prop where
  files (repository : String) :
    (Storage.files repository s').1 = (Storage.files repository s).1
  facts (repository : String) :
    (Storage.facts repository s').1 = (Storage.facts repository s).1
  edges (repository : String) :
    (Storage.edges repository s').1 = (Storage.edges repository s).1
  factsOfFile (file : Int64) : (Storage.factsOfFile file s').1 = (Storage.factsOfFile file s).1
  record {other : String} : other ≠ id →
    (Storage.repository other s').1 = (Storage.repository other s).1

namespace SameElsewhere

variable {id : String} {s s' s'' : σ}

theorem refl (id : String) (s : σ) : SameElsewhere id s s :=
  ⟨fun _ => rfl, fun _ => rfl, fun _ => rfl, fun _ => rfl, fun _ => rfl⟩

theorem trans (h : SameElsewhere id s s') (h' : SameElsewhere id s' s'') :
    SameElsewhere id s s'' where
  files repository := (h'.files repository).trans (h.files repository)
  facts repository := (h'.facts repository).trans (h.facts repository)
  edges repository := (h'.edges repository).trans (h.edges repository)
  factsOfFile file := (h'.factsOfFile file).trans (h.factsOfFile file)
  record hne := (h'.record hne).trans (h.record hne)

/-- Contents with another record answer the same elsewhere. -/
theorem of_putRepository {c : Contents} {r : Repository} (h : AnswersFrom s c)
    (h' : AnswersFrom s' (c.putRepository r)) : SameElsewhere r.id s s' where
  files repository := (h'.files repository).trans (h.files repository).symm
  facts repository := (h'.facts repository).trans (h.facts repository).symm
  edges repository := (h'.edges repository).trans (h.edges repository).symm
  factsOfFile file := (h'.factsOfFile file).trans (h.factsOfFile file).symm
  record {other} hne := by
    rw [h'.repository, h.repository, Contents.repositoryOf_putRepository, if_neg hne.symm]

end SameElsewhere

end Elsewhere

/-- A store whose updates of a repository change the record of that, and nothing else. -/
class UpdatesAlone (σ : Type) [Storage σ] : Prop where
  elsewhere (id : String) (u : RepositoryUpdate) (s : σ) :
    SameElsewhere id s (Storage.updateRepository id u s).2
  /-- A record that can be read is updated. -/
  done {id : String} {u : RepositoryUpdate} {s : σ} {old : Option Repository} : u.Fits →
    (Storage.repository id s).1 = .ok old →
    (Storage.updateRepository id u s).1 = .ok (.updated id old u) ∧
      (Storage.repository id (Storage.updateRepository id u s).2).1 = .ok (some (.updated id old u))
  /-- A record that cannot be read is not. -/
  refused {id : String} (u : RepositoryUpdate) {s : σ} {e : Failure} :
    (Storage.repository id s).1 = .error e →
    ∃ e', Storage.updateRepository id u s = (.error e', s)

instance : UpdatesAlone MemoryStore where
  elsewhere id u s := by
    obtain ⟨s', hrun, -, hcontents⟩ := s.updateRepository_contents id u
    have hreads := s'.answersFrom
    rw [hcontents] at hreads
    have hsame := SameElsewhere.of_putRepository s.answersFrom hreads
    rw [s.contents.updated_id] at hsame
    change SameElsewhere id s (MemoryStore.updateRepository id u s).2
    rwa [hrun]
  done {id u s old} _ hold := by
    obtain ⟨s', hrun, -, hcontents⟩ := s.updateRepository_contents id u
    have hupdated : s.contents.updated id u = .updated id old u := by
      rw [← Except.ok.inj hold]
      rfl
    change (MemoryStore.updateRepository id u s).1 = _ ∧
      Except.ok ((MemoryStore.updateRepository id u s).2.contents.repositoryOf id) = _
    rw [hrun, hcontents, Contents.repositoryOf_putRepository, if_pos (s.contents.updated_id id u),
      hupdated]
    exact ⟨rfl, rfl⟩
  refused _ _ _ h := by cases h

namespace Relational.Database

/-- The row that is written is the one that is found under its id. -/
theorem selectRepository_upsert (d : Database) (r : Repository) (id : String) :
    selectRepository id (upsertRepository (.ofRepository r) d).2 =
      if r.id = id then .ok (some r.kept) else selectRepository id d := by
  have hfind := find?_put (fun o : RepositoryRow => o.id) d.repositories (.ofRepository r) id
  unfold selectRepository upsertRepository hasRepository
  simp only [hfind]
  by_cases hid : r.id = id
  · rw [if_pos hid, if_pos (show (RepositoryRow.ofRepository r).id = id from hid)]
    simp only [RepositoryRow.toRepository_ofRepository_eq]
    rfl
  · rw [if_neg hid, if_neg (show (RepositoryRow.ofRepository r).id ≠ id from hid)]

theorem sameElsewhere_upsert (d : Database) (r : Repository) :
    SameElsewhere r.id d (upsertRepository (.ofRepository r) d).2 where
  files _ := rfl
  facts _ := rfl
  edges _ := rfl
  factsOfFile _ := rfl
  record {other} hne := by
    change (selectRepository other _).mapError _ = (selectRepository other d).mapError _
    rw [selectRepository_upsert, if_neg hne.symm]

theorem fits_of_selectRepository {d : Database} {id : String} {r : Repository}
    (h : selectRepository id d = .ok (some r)) : r.Fits := by
  unfold selectRepository at h
  split at h
  · cases h
  · rename_i row _
    cases hread : row.toRepository with
    | error i =>
      rw [hread] at h
      cases h
    | ok read =>
      rw [hread] at h
      obtain rfl := Option.some.inj (Except.ok.inj h)
      exact RepositoryRow.fits_of_toRepository hread

theorem selectRepository_of_ok {d : Database} {id : String} {old : Option Repository}
    (h : (Storage.repository id d).1 = .ok old) : selectRepository id d = .ok old := by
  change (selectRepository id d).mapError Failure.database = .ok old at h
  cases hs : selectRepository id d with
  | error i =>
    rw [hs] at h
    cases h
  | ok read =>
    rw [hs] at h
    exact congrArg _ (Except.ok.inj h)

instance : UpdatesAlone Database where
  elsewhere id u d := by
    change SameElsewhere id d (transaction (updateRow id u) d).2
    rcases updateRow_cases d id u with ⟨e, hrun⟩ | ⟨r, rfl, hrun, -⟩
    · rw [transaction_error hrun]
      exact .refl id d
    · rw [transaction_ok hrun]
      exact sameElsewhere_upsert d r
  done {id u d old} hfits hold := by
    have hselect := selectRepository_of_ok hold
    have hid : (Repository.updated id old u).id = id := by
      cases old with
      | none => rfl
      | some r => exact (selectRepository_id hselect : r.id = id)
    have hkept : (Repository.updated id old u).kept = .updated id old u := by
      have hold : (old.getD (Repository.fresh id)).Fits := by
        cases old with
        | none => exact Repository.fits_fresh id
        | some r => exact fits_of_selectRepository hselect
      have hnew := hold.apply hfits
      exact (Repository.kept_eq_iff hnew.languages).2 ⟨hnew.totalFiles, hnew.totalSize⟩
    have hafter := selectRepository_upsert d (.updated id old u) id
    rw [if_pos hid, hkept] at hafter
    change (transaction (updateRow id u) d).1 = _ ∧
      (query (selectRepository id) (transaction (updateRow id u) d).2).1 = _
    rw [transaction_ok (updateRow_of_select hselect u)]
    exact ⟨rfl, congrArg Prod.fst (query_eq hafter)⟩
  refused {id} u d e h := by
    change (selectRepository id d).mapError Failure.database = .error e at h
    cases hs : selectRepository id d with
    | ok r =>
      rw [hs] at h
      cases h
    | error i =>
      have hrun : updateRow id u d = (.error (.database i), d) := by
        simp only [updateRow, query, Command.andThen, Command.ask, hs, Except.mapError]
      exact ⟨_, transaction_error hrun⟩

end Relational.Database

end CodeSurvey
