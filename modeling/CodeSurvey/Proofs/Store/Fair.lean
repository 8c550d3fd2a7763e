-- What stays true of a store in memory when files are given to it as it returned them,
-- and edges lead to files that are stored for the same repository. Each record then
-- hangs on records of its own repository, and no id is given out twice.
import CodeSurvey.Proofs.Store.Integrity

namespace CodeSurvey

/-! ## Edges within a repository -/

namespace Contents

/-- Edges lead to files of their own repositories, or to none. -/
def Inward (c : Contents) : Prop :=
  ∀ e ∈ c.edges, ∀ t ∈ e.targetFile, ∃ f ∈ c.files, f.id = t ∧ f.repository = e.repository

namespace Inward

variable {c : Contents}

theorem addFiles (h : c.Inward) (stored : List StoredFile) : (c.addFiles stored).Inward := by
  intro e he t ht
  obtain ⟨f, hf, hleads⟩ := h e he t ht
  exact ⟨f, List.mem_append_left _ hf, hleads⟩

theorem clear (h : c.Inward) (repository : String) : (c.clear repository).Inward := by
  intro d hd t ht
  obtain ⟨e, he, rfl⟩ := List.mem_map.1 hd
  obtain ⟨ht, hout⟩ := Option.mem_filter_iff.1 ht
  obtain ⟨f, hf, rfl, hr⟩ := h e (List.mem_filter.1 he).1 t ht
  refine ⟨f, List.mem_filter.2 ⟨hf, ?_⟩, rfl, hr⟩
  -- a file of the repository is among those that are cleared
  rw [bne_iff_ne]
  intro hgone
  simp [mem_idsOf.2 ⟨f, hf, hgone, rfl⟩] at hout

theorem replace (h : c.Inward) (file : Int64) (facts : List StoredFact) {edges : List StoredEdge}
    (hedges : ∀ e ∈ edges, ∀ t ∈ e.targetFile,
      ∃ f ∈ c.files, f.id = t ∧ f.repository = e.repository) :
    (c.replace file facts edges).Inward := by
  intro e he t ht
  rcases List.mem_append.1 he with he | he
  · exact h e (List.mem_filter.1 he).1 t ht
  · exact hedges e he t ht

end Inward

end Contents

/-! ## Ids -/

namespace MemoryStore

/-- The store gave out the id. -/
def Gave (s : MemoryStore) (id : Int64) : Prop := 0 < id ∧ id ≤ s.lastId

theorem gave_iff {s : MemoryStore} {id : Int64} :
    s.Gave id ↔ 0 < id.toInt ∧ id.toInt ≤ s.lastId.toInt := by
  rw [Gave, Int64.lt_iff_toInt_lt, Int64.le_iff_toInt_le, Int64.toInt_zero]

/-- The store gave out the file's id, and no other file stands under it. -/
structure Remembers (s : MemoryStore) (f : StoredFile) : Prop where
  gave : s.Gave f.id
  file : ∀ g ∈ s.files, g.id = f.id → g = f

/-- What a store holds after at most so many new records: some of what it held before, and records
with new ids. -/
structure Later (n : Nat) (s s' : MemoryStore) : Prop where
  counts : s.lastId.toInt ≤ s'.lastId.toInt ∧ s'.lastId.toInt ≤ s.lastId.toInt + n
  files : ∀ f ∈ s'.files, f ∈ s.files ∨ s.lastId < f.id ∧ f.id ≤ s'.lastId
  facts : ∀ i ∈ s'.facts.map (·.id), i ∈ s.facts.map (·.id) ∨ s.lastId < i ∧ i ≤ s'.lastId
  edges : ∀ i ∈ s'.edges.map (·.id), i ∈ s.edges.map (·.id) ∨ s.lastId < i ∧ i ≤ s'.lastId

namespace Later

variable {n : Nat} {s s' : MemoryStore}

theorem refl (n : Nat) (s : MemoryStore) : Later n s s where
  counts := ⟨Int.le_refl _, by omega⟩
  files _ hf := .inl hf
  facts _ hi := .inl hi
  edges _ hi := .inl hi

theorem gave (h : Later n s s') {id : Int64} (hid : s.Gave id) : s'.Gave id := by
  have hcounts := h.counts
  rw [gave_iff] at hid ⊢
  omega

theorem gave_new (hlow : 0 ≤ s.lastId) {id : Int64} (hid : s.lastId < id ∧ id ≤ s'.lastId) :
    s'.Gave id := by
  rw [Int64.le_iff_toInt_le, Int64.toInt_zero] at hlow
  rw [Int64.lt_iff_toInt_lt, Int64.le_iff_toInt_le] at hid
  rw [gave_iff]
  omega

theorem remembers (h : Later n s s') {f : StoredFile} (hf : s.Remembers f) : s'.Remembers f where
  gave := h.gave hf.gave
  file g hg hid := by
    rcases h.files g hg with hold | hnew
    · exact hf.file g hold hid
    · have hle := hf.gave.2
      rw [← hid, Int64.le_iff_toInt_le] at hle
      rw [Int64.lt_iff_toInt_lt] at hnew
      omega

end Later

/-! ### Operations give out new ids -/

section Growing

variable {s s' : MemoryStore}

/-- As long as there are ids, what is new has new ones. -/
theorem Grows.later {stored : List StoredFile} {facts edges : List Int64}
    (h : s.Grows s' stored facts edges) {n : Nat}
    (hlength : stored.length + facts.length + edges.length ≤ n)
    (hroom : s.lastId.toInt + n < Text.wordSize 63) : Later n s s' := by
  obtain ⟨⟨keptFiles, hkeptFiles, hfiles⟩, ⟨keptFacts, hkeptFacts, hfacts⟩,
    ⟨keptEdges, hkeptEdges, hedges⟩, hcounted⟩ := h
  have hcount : (stored.map (·.id) ++ facts ++ edges).length ≤ n := by
    simpa [Nat.add_assoc] using hlength
  obtain ⟨hids, hlast⟩ := hcounted.numbered (by omega)
  have hnew : ∀ i ∈ stored.map (·.id) ++ facts ++ edges, s.lastId < i ∧ i ≤ s'.lastId :=
    fun i hi => ⟨hids.above i hi, hids.upTo i hi⟩
  refine ⟨⟨by omega, by omega⟩, fun f hf => ?_, fun i hi => ?_, fun i hi => ?_⟩
  · rw [hfiles] at hf
    refine (List.mem_append.1 hf).imp (fun hkept => hkeptFiles.subset hkept) fun hf => hnew _ ?_
    simp [List.mem_map_of_mem (f := (·.id)) hf]
  · rw [hfacts] at hi
    refine (List.mem_append.1 hi).imp (fun hkept => hkeptFacts.subset hkept) fun hi => hnew i ?_
    simp [hi]
  · rw [hedges] at hi
    refine (List.mem_append.1 hi).imp (fun hkept => hkeptEdges.subset hkept) fun hi => hnew i ?_
    simp [hi]

theorem Grows.later_of_none (h : s.Grows s' [] [] []) : Later 0 s s' := by
  have hlast := s.lastId.toInt_lt
  have hsize : (Text.wordSize 63 : Int) = 2 ^ 63 := rfl
  exact h.later (Nat.le_refl 0) (by omega)

end Growing

theorem later_insertFiles (s : MemoryStore) (new : List NewFile)
    (hroom : s.lastId.toInt + new.length < Text.wordSize 63) :
    Later new.length s (insertFiles new s).2 := by
  obtain ⟨stored, hgrows, hlength, -⟩ := s.grows_insertFiles new
  exact hgrows.later hlength hroom

theorem later_replaceFacts (s : MemoryStore) (file : Int64) (repository : String)
    (facts : List Fact) (edges : List Edge)
    (hroom : s.lastId.toInt + (facts.length + edges.length : Nat) < Text.wordSize 63) :
    Later (facts.length + edges.length) s (replaceFacts file repository facts edges s).2 := by
  obtain ⟨newFacts, newEdges, hgrows, hlength, -⟩ :=
    s.grows_replaceFacts file repository facts edges
  exact hgrows.later (by simpa using hlength) hroom

/-! ## What stays true -/

/-- Every record hangs on records of its own repository, and the store gave out all ids. -/
structure Orderly (s : MemoryStore) : Prop where
  whole : s.contents.Whole
  inward : s.contents.Inward
  counter : 0 ≤ s.lastId
  files : ∀ f ∈ s.files, s.Gave f.id
  facts : ∀ i ∈ s.facts.map (·.id), s.Gave i
  edges : ∀ i ∈ s.edges.map (·.id), s.Gave i

theorem orderly_empty : empty.Orderly where
  whole := Contents.whole_empty
  inward := by simp [Contents.Inward, contents, empty]
  counter := Int64.le_refl 0
  files := by simp [empty]
  facts := by simp [empty]
  edges := by simp [empty]

theorem Later.orderly {n : Nat} {s s' : MemoryStore} (hl : Later n s s') (h : s.Orderly)
    (hwhole : s'.contents.Whole) (hinward : s'.contents.Inward) : s'.Orderly where
  whole := hwhole
  inward := hinward
  counter := by
    have hcounts := hl.counts
    have hlow := h.counter
    rw [Int64.le_iff_toInt_le] at hlow ⊢
    omega
  files f hf := (hl.files f hf).elim (fun hold => hl.gave (h.files f hold)) (gave_new h.counter)
  facts i hi := (hl.facts i hi).elim (fun hold => hl.gave (h.facts i hold)) (gave_new h.counter)
  edges i hi := (hl.edges i hi).elim (fun hold => hl.gave (h.edges i hold)) (gave_new h.counter)

namespace Orderly

variable {s : MemoryStore}

theorem keeps (h : s.Orderly) : s.Keeps s.contents := ⟨rfl, fun f hf => (h.files f hf).2⟩

/-- A stored file stands under its id alone. -/
theorem remembers (h : s.Orderly) {f : StoredFile} (hf : f ∈ s.files) : s.Remembers f where
  gave := h.files f hf
  file _ hg hid := Contents.Distinct.eq_of_id h.whole.distinct hg hf hid

theorem insertFiles (h : s.Orderly) {new : List NewFile}
    (hroom : s.lastId.toInt + new.length < Text.wordSize 63) :
    (MemoryStore.insertFiles new s).2.Orderly := by
  have hlater := s.later_insertFiles new hroom
  rcases s.insertFiles_counted new hroom with ⟨e, hrun, -⟩ |
    ⟨stored, s', hrun, hcontents, hadmits, hnew, hids, -⟩
  · rw [hrun]
    exact h
  · have hfresh : ∀ f ∈ stored, ∀ g ∈ s.files, f.id ≠ g.id :=
      fun f hf g hg => hids.ne_of_le (List.mem_map_of_mem hf) (h.files g hg).2
    rw [hrun] at hlater ⊢
    refine hlater.orderly h ?_ ?_
    · rw [hcontents]
      exact h.whole.addFiles hids.nodup hfresh (hadmits.known_stored hnew)
    · rw [hcontents]
      exact h.inward.addFiles stored

theorem clearFiles (h : s.Orderly) (repository : String) :
    (MemoryStore.clearFiles repository s).2.Orderly := by
  have hcontents := (removeFiles_keeps h.keeps h.whole.distinct repository).contents
  refine (s.grows_removeFiles (s.contents.idsOf repository)).later_of_none.orderly h ?_ ?_
  · rw [hcontents]
    exact h.whole.clear repository
  · rw [hcontents]
    exact h.inward.clear repository

/-- The file is named by the repository that it is stored for, and edges lead to files that are
stored for it, too. -/
theorem replaceFacts (h : s.Orderly) {file : Int64} {repository : String} {facts : List Fact}
    {edges : List Edge} (hroom : s.lastId.toInt + (facts.length + edges.length : Nat) <
      Text.wordSize 63)
    (hfile : ∀ f ∈ s.files, f.id = file → f.repository = repository)
    (htargets : ∀ e ∈ edges, ∀ t ∈ e.targetFile,
      ∃ g ∈ s.files, g.id = t ∧ g.repository = repository) :
    (MemoryStore.replaceFacts file repository facts edges s).2.Orderly := by
  have hlater := s.later_replaceFacts file repository facts edges hroom
  rcases s.replaceFacts_cases file repository facts edges with ⟨e, hrun, -⟩ |
    ⟨newFacts, newEdges, id, hrun, hcheck, hstored, hfacts, hedges, -⟩
  · rw [hrun]
    exact h
  · obtain ⟨f, hf, rfl⟩ := Contents.hasFile_iff.1 hstored
    obtain rfl := hfile f hf rfl
    have hmem : ∀ e ∈ newEdges, e.toEdge ∈ edges := fun e he => hedges ▸ List.mem_map_of_mem he
    have hown : ∀ e ∈ newEdges, e.sourceFile = f.id ∧ e.repository = f.repository :=
      fun e he => checkEdges_iff.1 hcheck e.toEdge (hmem e he)
    rw [hrun] at hlater ⊢
    refine hlater.orderly h (h.whole.replace hf (hang_of_map_eq hfacts).2 hown ?_)
      (h.inward.replace f.id newFacts ?_)
    · intro e he t ht
      obtain ⟨g, hg, hid, -⟩ := htargets e.toEdge (hmem e he) t ht
      exact Contents.hasFile_iff.2 ⟨g, hg, hid⟩
    · intro e he t ht
      rw [(hown e he).2]
      exact htargets e.toEdge (hmem e he) t ht

theorem updateRepository (h : s.Orderly) (id : String) (u : RepositoryUpdate) :
    (MemoryStore.updateRepository id u s).2.Orderly := by
  have hlater := (s.grows_updateRepository id u).later_of_none
  obtain ⟨s', hrun, -, hcontents⟩ := s.updateRepository_contents id u
  rw [hrun] at hlater ⊢
  refine hlater.orderly h ?_ ?_
  · rw [hcontents]
    exact h.whole.putRepository _
  · rw [hcontents]
    exact h.inward

theorem deleteRepository (h : s.Orderly) (id : String) :
    (MemoryStore.deleteRepository id s).2.Orderly := by
  have hlater := (s.grows_deleteRepository id).later_of_none
  obtain ⟨s', hrun, -, hkept⟩ := deleteRepository_keeps h.keeps h.whole id
  rw [hrun] at hlater ⊢
  refine hlater.orderly h ?_ ?_
  · rw [hkept.contents]
    exact h.whole.delete id
  · rw [hkept.contents]
    exact h.inward.clear id

end Orderly

end MemoryStore

/-! ## Clients -/

/-- The name is that of a file that was returned, or a number that was not given out. -/
def FileName.Known (k : Client MemoryStore) : FileName → Prop
  | returned n => n < k.returned.length
  | number id => ¬ k.store.Gave id

/-- Facts are replaced for a file as the store returned it, and an edge that has a target leads to
a file that is stored for the same repository. -/
def StoreCall.Fair (k : Client MemoryStore) : StoreCall → Prop
  | replaceFacts n _ es => ∃ f, k.returned[n]? = some f ∧
      ∀ e ∈ es, ∀ t ∈ e.target, ∃ g ∈ k.store.filesOf f.repository, k.returned[t]? = some g
  | _ => True

namespace Client

open MemoryStore

/-- The client remembers its files as they are stored. -/
structure Orderly (k : Client MemoryStore) : Prop where
  store : k.store.Orderly
  returned : ∀ f ∈ k.returned, k.store.Remembers f

variable {k : Client MemoryStore} {call : StoreCall}

theorem orderly_of_empty : (Client.of MemoryStore.empty).Orderly :=
  ⟨orderly_empty, by simp [Client.of]⟩

theorem store_ask_insertFiles (k : Client MemoryStore) (new : List NewFile) :
    (k.ask (.insertFiles new)).2.store = (MemoryStore.insertFiles new k.store).2 := by
  rcases k.store.insertFiles_cases new with ⟨e, hrun, -⟩ | ⟨stored, id, hrun, -⟩ <;>
    simp only [Client.ask, Storage.insertFiles, hrun]

theorem ask_replaceFacts {n : Nat} {f : StoredFile} (hf : k.returned[n]? = some f)
    (facts : List Fact) (es : List EdgeCall) :
    k.ask (.replaceFacts n facts es) = k.run
      (MemoryStore.replaceFacts f.id f.repository facts (es.map k.edge)) (fun _ => .done) := by
  simp only [Client.ask, hf]
  rfl

theorem later_ask (k : Client MemoryStore) (call : StoreCall)
    (hroom : k.store.lastId.toInt + call.records < Text.wordSize 63) :
    Later call.records k.store (k.ask call).2.store := by
  cases call with
  | insertFiles new =>
    rw [store_ask_insertFiles]
    exact k.store.later_insertFiles new hroom
  | replaceFacts n facts es =>
    cases hf : k.returned[n]? with
    | none =>
      simp only [Client.ask, hf]
      exact .refl _ k.store
    | some f =>
      have hlater := k.store.later_replaceFacts f.id f.repository facts (es.map k.edge)
      rw [List.length_map] at hlater
      rw [ask_replaceFacts hf]
      exact hlater hroom
  | clearFiles repository => exact (k.store.grows_removeFiles _).later_of_none
  | updateRepository id u => exact (k.store.grows_updateRepository id u).later_of_none
  | deleteRepository id => exact (k.store.grows_deleteRepository id).later_of_none
  | files repository => exact .refl 0 k.store
  | factsOfFile file => exact .refl 0 k.store
  | facts repository => exact .refl 0 k.store
  | edges repository => exact .refl 0 k.store
  | repository id => exact .refl 0 k.store

/-- What is returned for a call is stored by it. -/
theorem mem_returned_ask {f : StoredFile} (hf : f ∈ (k.ask call).2.returned) :
    f ∈ k.returned ∨ f ∈ (k.ask call).2.store.files := by
  cases call with
  | insertFiles new =>
    rcases k.store.insertFiles_cases new with ⟨e, hrun, -⟩ | ⟨stored, last, hrun, -⟩
    · simp only [Client.ask, Storage.insertFiles, hrun] at hf
      exact .inl hf
    · simp only [Client.ask, Storage.insertFiles, hrun] at hf ⊢
      exact (List.mem_append.1 hf).imp id fun hnew => List.mem_append_right _ hnew
  | replaceFacts n facts es =>
    cases hget : k.returned[n]? with
    | none =>
      simp only [Client.ask, hget] at hf
      exact .inl hf
    | some g =>
      rw [ask_replaceFacts hget] at hf
      exact .inl hf
  | _ => exact .inl hf

namespace Orderly

/-- The store stays in order through a fair call. -/
theorem store_ask (h : k.Orderly) (hfair : call.Fair k)
    (hroom : k.store.lastId.toInt + call.records < Text.wordSize 63) :
    (k.ask call).2.store.Orderly := by
  cases call with
  | insertFiles new =>
    rw [store_ask_insertFiles]
    exact h.store.insertFiles hroom
  | replaceFacts n facts es =>
    obtain ⟨f, hf, htargets⟩ := hfair
    have hremembers := h.returned f (List.mem_of_getElem? hf)
    rw [ask_replaceFacts hf]
    refine h.store.replaceFacts (by rw [List.length_map]; exact hroom)
      (fun g hg hid => by rw [hremembers.file g hg hid]) ?_
    simp only [List.forall_mem_map, Client.edge, Option.mem_def, Option.map_eq_some_iff]
    rintro e he _ ⟨t, ht, rfl⟩
    obtain ⟨g, hg, hget⟩ := htargets e he t ht
    obtain ⟨hg, hr⟩ := List.mem_filter.1 hg
    refine ⟨g, hg, ?_, beq_iff_eq.1 hr⟩
    simp only [Client.idOf, hget, Option.map_some, Option.getD_some]
  | clearFiles repository => exact h.store.clearFiles repository
  | updateRepository id u => exact h.store.updateRepository id u
  | deleteRepository id => exact h.store.deleteRepository id
  | files repository => exact h.store
  | factsOfFile file => exact h.store
  | facts repository => exact h.store
  | edges repository => exact h.store
  | repository id => exact h.store

/-- So does what the client remembers. -/
theorem ask (h : k.Orderly) (hfair : call.Fair k)
    (hroom : k.store.lastId.toInt + call.records < Text.wordSize 63) : (k.ask call).2.Orderly where
  store := h.store_ask hfair hroom
  returned f hf := (mem_returned_ask hf).elim
    (fun hold => (k.later_ask call hroom).remembers (h.returned f hold))
    (h.store_ask hfair hroom).remembers

end Orderly

/-! ### Runs of fair calls -/

/-- Each call is fair when its turn comes. -/
def FairCalls (k : Client MemoryStore) : List StoreCall → Prop
  | [] => True
  | call :: rest => call.Fair k ∧ FairCalls (k.ask call).2 rest

/-- The client behind one call after the other. -/
def after (k : Client MemoryStore) : List StoreCall → Client MemoryStore
  | [] => k
  | call :: rest => (k.ask call).2.after rest

/-- A client that makes fair calls knows its files as they are stored. -/
theorem Orderly.after (h : k.Orderly) {calls : List StoreCall} (hfair : k.FairCalls calls)
    (hroom : k.store.lastId.toInt + (calls.map StoreCall.records).sum < Text.wordSize 63) :
    (k.after calls).Orderly ∧ (k.after calls).store.lastId.toInt ≤
      k.store.lastId.toInt + (calls.map StoreCall.records).sum := by
  induction calls generalizing k with
  | nil => exact ⟨h, by simp [Client.after]⟩
  | cons call rest ih =>
    rw [List.map_cons, List.sum_cons] at hroom ⊢
    have hlater := k.later_ask call (by omega)
    have hcounts := hlater.counts
    obtain ⟨horderly, hlast⟩ := ih (h.ask hfair.1 (by omega)) hfair.2 (by omega)
    exact ⟨horderly, by simp only [Client.after]; omega⟩

end Client

end CodeSurvey
