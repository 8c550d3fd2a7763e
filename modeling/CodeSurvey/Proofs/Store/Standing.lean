-- How the analysis of a repository stands, as a store has it. An update changes the
-- standing of the repository that it is for, and no other operation of an analysis
-- changes any, whether it does what it is asked for or fails. A store whose calls
-- may fail at any time is one of those that keep to this.
import CodeSurvey.Proofs.Store.Memory
import CodeSurvey.Proofs.Store.Relational

namespace CodeSurvey

/-! ## Standings -/

/-- What the record of a repository says of its analysis. -/
structure Standing where
  status : RepositoryStatus
  message : Option String
deriving DecidableEq, Repr

namespace Standing

def ofRecord (r : Repository) : Standing := ⟨r.status, r.errorMessage⟩

/-- The standing of a repository of which nothing is known yet. -/
def fresh : Standing := ⟨.pending, none⟩

def apply (s : Standing) (u : RepositoryUpdate) : Standing where
  status := u.status.getD s.status
  message := u.errorMessage <|> keptMessage s.message u.status

theorem ofRecord_apply (r : Repository) (u : RepositoryUpdate) :
    ofRecord (r.apply u) = (ofRecord r).apply u := rfl

theorem ofRecord_fresh (id : String) : ofRecord (Repository.fresh id) = fresh := rfl

/-- A status other than a failure, set without a message, clears the message of before. -/
theorem apply_toStatus (s : Standing) {u : RepositoryUpdate} {status : RepositoryStatus}
    (hstatus : u.status = some status) (hmessage : u.errorMessage = none)
    (hfailed : status ≠ .failed) : s.apply u = ⟨status, none⟩ := by
  unfold apply keptMessage
  rw [hstatus, hmessage]
  cases status with
  | failed => exact absurd rfl hfailed
  | _ => rfl

/-- A failure is written down with its message, whatever was written before. -/
theorem apply_failure (s : Standing) (message : String) :
    s.apply (.failure message) = ⟨.failed, some message⟩ := rfl

end Standing

/-! ## Operations that leave something -/

namespace Command

variable {σ α β γ : Type}

/-- Whatever comes of the operation, what is read of the state stays. -/
def Leaves (read : σ → γ) (c : Command σ α) : Prop := ∀ s, read (c s).2 = read s

variable {read : σ → γ}

theorem leaves_answer (a : α) : Leaves read (answer a : Command σ α) := fun _ => rfl

theorem leaves_ask (f : σ → Except Failure α) : Leaves read (ask f) := fun _ => rfl

theorem Leaves.andThen {x : Command σ α} {f : α → Command σ β} (hx : x.Leaves read)
    (hf : ∀ a, (f a).Leaves read) : (x.andThen f).Leaves read := by
  intro s
  have h := hx s
  unfold Command.andThen
  split
  · rename_i a t hxs
    rw [hxs] at h
    exact (hf a t).trans h
  · rename_i e t hxs
    rw [hxs] at h
    exact h

theorem Leaves.followedBy {x : Command σ Unit} {y : Command σ α} (hx : x.Leaves read)
    (hy : y.Leaves read) : (x.followedBy y).Leaves read :=
  hx.andThen fun _ => hy

theorem leaves_each {f : α → Command σ Unit} (hf : ∀ a, (f a).Leaves read) (xs : List α) :
    (each f xs).Leaves read := by
  induction xs with
  | nil => exact leaves_answer ()
  | cons a rest ih => exact (hf a).followedBy ih

theorem leaves_collect {f : α → Command σ β} (hf : ∀ a, (f a).Leaves read) (xs : List α) :
    (collect f xs).Leaves read := by
  induction xs with
  | nil => exact leaves_answer []
  | cons a rest ih =>
    exact (hf a).andThen fun b => ih.andThen fun bs => leaves_answer (b :: bs)

end Command

/-! ## Records with keys -/

section Keys

variable {α : Type} (key : α → String) (xs : List α) (x : α) (id : String)

/-- The record that is found once those with the key of a record are replaced by that record. -/
theorem find?_replace : (xs.map (fun o => if key o == key x then x else o)).find? (key · == id) =
    if key x = id then (xs.find? (key · == id)).map (fun _ => x) else xs.find? (key · == id) := by
  induction xs with
  | nil => simp
  | cons y rest ih =>
    rw [List.map_cons, List.find?_cons, List.find?_cons, ih]
    by_cases hy : key y = key x
    · by_cases hx : key x = id
      · simp [hy, hx]
      · have hne : (key x == id) = false := by simpa using hx
        simp [hy, hx, hne]
    · have hne : (key y == key x) = false := by simpa using hy
      by_cases hx : key x = id
      · subst hx
        simp [hne]
      · simp [hne, hx]

/-- The record that is found once a record is written over those with its key, or behind the others
where there is none. -/
theorem find?_put : (if xs.any (key · == key x) then
      xs.map (fun o => if key o == key x then x else o) else xs ++ [x]).find? (key · == id) =
    if key x = id then some x else xs.find? (key · == id) := by
  by_cases hany : xs.any (key · == key x) = true
  · rw [if_pos hany, find?_replace]
    split
    · rename_i hid
      subst hid
      obtain ⟨y, hy⟩ := Option.isSome_iff_exists.1 (List.find?_isSome.2 (List.any_eq_true.1 hany))
      rw [hy]
      rfl
    · rfl
  · have hnone : xs.find? (key · == key x) = none := by simpa using hany
    rw [if_neg hany, List.find?_append]
    split
    · rename_i hid
      subst hid
      simp [hnone]
    · rename_i hne
      simp [hne]

end Keys

/-! ## Stores that keep records -/

/-- A store that keeps how the analyses of repositories stand. -/
class RecordKeeping (σ : Type) [Storage σ] where
  standing : σ → String → Option Standing
  /-- A query that is answered tells the standing. -/
  told {s s' : σ} {id : String} {r : Option Repository} :
    Storage.repository id s = (.ok r, s') → standing s id = r.map .ofRecord
  /-- An update that is answered was done. -/
  updated {s s' : σ} {id : String} {u : RepositoryUpdate} {r : Repository} :
    Storage.updateRepository id u s = (.ok r, s') →
      standing s' id = some (((standing s id).getD .fresh).apply u)
  others (id : String) (u : RepositoryUpdate) {other : String} : other ≠ id →
    (Storage.updateRepository id u : Command σ Repository).Leaves (standing · other)
  insertFiles (new : List NewFile) (id : String) :
    (Storage.insertFiles new : Command σ (List StoredFile)).Leaves (standing · id)
  clearFiles (repository id : String) :
    (Storage.clearFiles repository : Command σ Nat).Leaves (standing · id)
  replaceFacts (file : Int64) (repository : String) (facts : List Fact) (edges : List Edge)
    (id : String) :
    (Storage.replaceFacts file repository facts edges : Command σ Unit).Leaves (standing · id)

/-! ## The store in memory -/

namespace MemoryStore

def standing (s : MemoryStore) (id : String) : Option Standing :=
  (s.repositoryOf id).map .ofRecord

theorem standing_congr {s s' : MemoryStore} (h : s'.repositories = s.repositories) (id : String) :
    s'.standing id = s.standing id := by
  unfold standing repositoryOf
  rw [h]

theorem repositories_addFiles (s : MemoryStore) (files : List NewFile) :
    (s.addFiles files).2.repositories = s.repositories := by
  induction files generalizing s with
  | nil => rfl
  | cons f rest ih => exact ih (s.addFile f).2

theorem leaves_insertFiles (new : List NewFile) : (insertFiles new).Leaves (·.repositories) := by
  intro s
  unfold insertFiles
  split
  · rfl
  · exact repositories_addFiles s new

theorem leaves_replaceFacts (file : Int64) (repository : String) (facts : List Fact)
    (edges : List Edge) : (replaceFacts file repository facts edges).Leaves (·.repositories) := by
  have hfacts : ∀ s : MemoryStore,
      (facts.foldl (addFact file repository) s).repositories = s.repositories := by
    induction facts with
    | nil => intro s; rfl
    | cons f rest ih => exact fun s => ih (addFact file repository s f)
  have hedges : ∀ s : MemoryStore, (edges.foldl addEdge s).repositories = s.repositories := by
    induction edges with
    | nil => intro s; rfl
    | cons e rest ih => exact fun s => ih (s.addEdge e)
  intro s
  unfold replaceFacts
  split
  · rfl
  · split
    · exact (hedges _).trans (hfacts _)
    · rfl

theorem standing_updateRepository (s : MemoryStore) (id : String) (u : RepositoryUpdate)
    (other : String) : (updateRepository id u s).2.standing other =
      if other = id then some (((s.standing id).getD .fresh).apply u) else s.standing other := by
  let r := ((s.repositoryOf id).getD (Repository.fresh id)).apply u
  have hid : r.id = id := s.contents.updated_id id u
  have hput : (updateRepository id u s).2.repositories =
      if s.repositories.any (·.id == r.id) then
        s.repositories.map (fun o => if o.id == r.id then r else o)
      else s.repositories ++ [r] := by
    rw [hid]
    cases hof : s.repositoryOf id with
    | none =>
      have hknows : s.repositories.any (·.id == id) = false :=
        Contents.unknown_of_repositoryOf (c := s.contents) hof
      simp [updateRepository, hof, hknows, r]
    | some old =>
      have hknows : s.repositories.any (·.id == id) = true :=
        Contents.knows_of_repositoryOf (c := s.contents) hof
      simp [updateRepository, hof, hknows, r]
  have hstanding : Standing.ofRecord r = ((s.standing id).getD .fresh).apply u := by
    unfold standing
    cases hof : s.repositoryOf id <;> simp [r, hof, Standing.ofRecord_apply, Standing.ofRecord_fresh]
  have hfind := find?_put (fun o : Repository => o.id) s.repositories r other
  unfold standing repositoryOf
  rw [hput, hfind, hid]
  by_cases hother : id = other
  · rw [if_pos hother, if_pos hother.symm, Option.map_some, hstanding]
    rfl
  · rw [if_neg hother, if_neg (Ne.symm hother)]

instance : RecordKeeping MemoryStore where
  standing := standing
  told h := by
    obtain ⟨hr, -⟩ := Prod.mk.inj h
    obtain rfl := Except.ok.inj hr
    rfl
  updated {s s' id u r} h := by
    have hs : (updateRepository id u s).2 = s' := congrArg Prod.snd h
    rw [← hs, standing_updateRepository, if_pos rfl]
  others id u other hne s := by
    change (updateRepository id u s).2.standing other = s.standing other
    rw [standing_updateRepository, if_neg hne]
  insertFiles new id s := standing_congr (leaves_insertFiles new s) id
  clearFiles _ id _ := standing_congr rfl id
  replaceFacts file repository facts edges id s :=
    standing_congr (leaves_replaceFacts file repository facts edges s) id

end MemoryStore

/-! ## The database -/

namespace Relational

/-- What is written to a row and read back stands as it did. -/
theorem RepositoryRow.standing_of_toRepository {r kept : Repository}
    (h : (RepositoryRow.ofRepository r).toRepository = .ok kept) :
    Standing.ofRecord kept = Standing.ofRecord r := by
  simp only [toRepository, ofRepository, converted, RepositoryStatus.ofName_name, Except.mapError,
    bind, Except.bind, pure, Except.pure] at h
  repeat' (split at h <;> [cases h; skip])
  rw [← Except.ok.inj h]
  rfl

namespace Database

def standing (d : Database) (id : String) : Option Standing :=
  match selectRepository id d with
  | .ok r => r.map .ofRecord
  | .error _ => none

theorem standing_congr {d d' : Database} (h : d'.repositories = d.repositories) (id : String) :
    d'.standing id = d.standing id := by
  unfold standing selectRepository
  rw [h]

theorem Leaves.transaction {α γ : Type} {read : Database → γ} {c : Command Database α}
    (h : c.Leaves read) : (transaction c).Leaves read := by
  intro d
  have hd := h d
  unfold Database.transaction
  split
  · rename_i a changed hc
    rw [hc] at hd
    exact hd
  · rfl

/-- Of the statements of an analysis, only that for a repository changes the table of those. -/
theorem leaves_insertFile (f : NewFile) : (insertFile f).Leaves (·.repositories) := by
  intro d
  unfold insertFile
  split
  · rfl
  · split
    · rfl
    · split <;> rfl

theorem leaves_insertFact (file : Int64) (repository : String) (f : Fact) :
    (insertFact file repository f).Leaves (·.repositories) := by
  intro d
  unfold insertFact
  split
  · rfl
  · split <;> rfl

theorem leaves_insertEdge (e : Edge) : (insertEdge e).Leaves (·.repositories) := by
  intro d
  unfold insertEdge
  split
  · rfl
  · split <;> rfl

theorem leaves_replaceRows (file : Int64) (repository : String) (facts : List Fact)
    (edges : List Edge) : (replaceRows file repository facts edges).Leaves (·.repositories) := by
  intro d
  unfold replaceRows
  split
  · rfl
  · have hfacts := Command.leaves_each (leaves_insertFact file repository) facts
    have hedges := Command.leaves_each leaves_insertEdge edges
    have hdelete : (deleteFactsOf file).Leaves (fun d : Database => d.repositories) := fun _ => rfl
    have hdelete' : (deleteEdgesOf file).Leaves (fun d : Database => d.repositories) := fun _ => rfl
    exact (hdelete.followedBy (hdelete'.followedBy (hfacts.followedBy hedges))) d

theorem selectRepository_id {d : Database} {id : String} {r : Repository}
    (h : selectRepository id d = .ok (some r)) : r.id = id := by
  unfold selectRepository at h
  split at h
  · cases h
  · rename_i row hrow
    cases hr : row.toRepository with
    | error i =>
      rw [hr] at h
      cases h
    | ok r' =>
      rw [hr] at h
      obtain rfl := Option.some.inj (Except.ok.inj h)
      rw [← RepositoryRow.id_eq hr]
      simpa using List.find?_some hrow

theorem standing_upsertRepository (d : Database) (r : Repository) (id : String) :
    (upsertRepository (RepositoryRow.ofRepository r) d).2.standing id =
      if r.id = id then some (.ofRecord r) else d.standing id := by
  have hfind := find?_put (fun o : RepositoryRow => o.id) d.repositories (.ofRepository r) id
  unfold standing selectRepository upsertRepository hasRepository
  simp only [hfind]
  by_cases hid : r.id = id
  · obtain ⟨kept, hkept, -⟩ := RepositoryRow.exists_toRepository_ofRepository r
    rw [if_pos hid, if_pos (show (RepositoryRow.ofRepository r).id = id from hid)]
    simp only [hkept]
    exact congrArg some (RepositoryRow.standing_of_toRepository hkept)
  · rw [if_neg hid, if_neg (show (RepositoryRow.ofRepository r).id ≠ id from hid)]

/-- The row of a repository is read, changed and written back, or the update is refused. -/
theorem updateRow_cases (d : Database) (id : String) (u : RepositoryUpdate) :
    (∃ e, updateRow id u d = (.error e, d)) ∨ ∃ r : Repository, r.id = id ∧
      updateRow id u d = (.ok r, (upsertRepository (RepositoryRow.ofRepository r) d).2) ∧
      Standing.ofRecord r = ((d.standing id).getD .fresh).apply u := by
  cases hselect : selectRepository id d with
  | error i =>
    refine .inl ⟨.database i, ?_⟩
    simp [updateRow, query, Command.andThen, Command.ask, hselect, Except.mapError]
  | ok current =>
    have hstanding : d.standing id = current.map .ofRecord := by
      unfold standing
      rw [hselect]
    refine .inr ⟨(current.getD (Repository.fresh id)).apply u, ?_, ?_, ?_⟩
    · cases current with
      | none => rfl
      | some r => exact (selectRepository_id hselect : r.id = id)
    · simp [updateRow, query, Command.andThen, Command.ask, hselect, Except.mapError,
        Command.followedBy, Command.answer, upsertRepository]
    · rw [hstanding]
      cases current <;> rfl

instance : RecordKeeping Database where
  standing := standing
  told {s s' id r} h := by
    have hselect : (selectRepository id s).mapError Failure.database = .ok r := congrArg Prod.fst h
    unfold standing
    cases hs : selectRepository id s with
    | error i =>
      rw [hs] at hselect
      cases hselect
    | ok r' =>
      rw [hs] at hselect
      rw [Except.ok.inj hselect]
  updated {s s' id u r} h := by
    change transaction (updateRow id u) s = (.ok r, s') at h
    rcases s.updateRow_cases id u with ⟨e, he⟩ | ⟨r', hid, hr, hstanding⟩
    · rw [transaction_error he] at h
      cases h
    · rw [transaction_ok hr] at h
      obtain ⟨-, rfl⟩ := Prod.mk.inj h
      rw [standing_upsertRepository, if_pos hid, hstanding]
  others id u other hne s := by
    change (transaction (updateRow id u) s).2.standing other = s.standing other
    rcases s.updateRow_cases id u with ⟨e, he⟩ | ⟨r', hid, hr, -⟩
    · rw [transaction_error he]
    · rw [transaction_ok hr, standing_upsertRepository, if_neg (hid ▸ Ne.symm hne)]
  insertFiles new id s :=
    standing_congr (Leaves.transaction (Command.leaves_collect leaves_insertFile new) s) id
  clearFiles _ id _ := standing_congr rfl id
  replaceFacts file repository facts edges id s := by
    refine standing_congr ?_ id
    simp only [Storage.replaceFacts]
    cases checkEdges file repository edges with
    | error e => rfl
    | ok _ => exact Leaves.transaction (leaves_replaceRows file repository facts edges) s

end Database

end Relational

/-! ## Stores that fail -/

/-- A store whose next calls may fail: of each it is told beforehand whether it fails, and how.
Calls behind these are made. -/
structure Faulty (σ : Type) where
  store : σ
  faults : List (Option Failure)

namespace Faulty

variable {σ : Type}

/-- Makes a call, or fails and leaves the store as it is. -/
def call {α : Type} (c : Command σ α) : Command (Faulty σ) α := fun s =>
  match s.faults with
  | some f :: rest => (.error f, { s with faults := rest })
  | none :: rest => ((c s.store).1, ⟨(c s.store).2, rest⟩)
  | [] => ((c s.store).1, ⟨(c s.store).2, []⟩)

theorem call_cases {α : Type} (c : Command σ α) (s : Faulty σ) :
    (∃ f rest, call c s = (.error f, ⟨s.store, rest⟩)) ∨
      ∃ rest, call c s = ((c s.store).1, ⟨(c s.store).2, rest⟩) := by
  unfold call
  split
  · exact .inl ⟨_, _, rfl⟩
  · exact .inr ⟨_, rfl⟩
  · exact .inr ⟨_, rfl⟩

theorem call_ok {α : Type} {c : Command σ α} {s s' : Faulty σ} {a : α}
    (h : call c s = (.ok a, s')) : c s.store = (.ok a, s'.store) := by
  rcases call_cases c s with ⟨f, rest, hf⟩ | ⟨rest, hr⟩
  · rw [hf] at h
    cases h
  · rw [hr] at h
    obtain ⟨hanswer, rfl⟩ := Prod.mk.inj h
    exact Prod.ext hanswer rfl

theorem leaves_call {α γ : Type} {read : σ → γ} {c : Command σ α} (h : c.Leaves read) :
    (call c).Leaves (fun s => read s.store) := by
  intro s
  rcases call_cases c s with ⟨f, rest, hf⟩ | ⟨rest, hr⟩
  · simp only [hf]
  · simp only [hr]
    exact h s.store

instance [Storage σ] : Storage (Faulty σ) where
  insertFiles new := call (Storage.insertFiles new)
  files repository := call (Storage.files repository)
  clearFiles repository := call (Storage.clearFiles repository)
  replaceFacts file repository facts edges :=
    call (Storage.replaceFacts file repository facts edges)
  factsOfFile file := call (Storage.factsOfFile file)
  facts repository := call (Storage.facts repository)
  edges repository := call (Storage.edges repository)
  updateRepository id u := call (Storage.updateRepository id u)
  repository id := call (Storage.repository id)
  deleteRepository id := call (Storage.deleteRepository id)

instance [Storage σ] [RecordKeeping σ] : RecordKeeping (Faulty σ) where
  standing s := RecordKeeping.standing s.store
  told h := RecordKeeping.told (call_ok h)
  updated h := RecordKeeping.updated (call_ok h)
  others id u _ hne := leaves_call (RecordKeeping.others id u hne)
  insertFiles new id := leaves_call (RecordKeeping.insertFiles new id)
  clearFiles repository id := leaves_call (RecordKeeping.clearFiles repository id)
  replaceFacts file repository facts edges id :=
    leaves_call (RecordKeeping.replaceFacts file repository facts edges id)

end Faulty

end CodeSurvey
