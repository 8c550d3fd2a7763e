-- What a store in memory holds of one repository. A call for the repository gives there
-- the answer that it gives in the whole store and leaves the same, and a call for
-- another repository leaves it as it is but for the counter of ids.
import CodeSurvey.Proofs.Store.Fair

namespace CodeSurvey

namespace MemoryStore

/-- What the store holds of a repository. -/
def only (s : MemoryStore) (q : String) : MemoryStore where
  lastId := s.lastId
  repositories := s.repositories.filter (fun r => r.id == q)
  files := s.filesOf q
  facts := s.facts.filter (fun x => x.repository == q)
  edges := s.edges.filter (fun e => e.repository == q)

/-- What is held of the repository gets the same answer, and is left as in the whole store. -/
def Confined {α : Type} (q : String) (c : Command MemoryStore α) (s : MemoryStore) : Prop :=
  c (s.only q) = ((c s).1, (c s).2.only q)

/-- What is held of the repository stays as it is. Ids may be given out. -/
def Spared {α : Type} (q : String) (c : Command MemoryStore α) (s : MemoryStore) : Prop :=
  (c s).2.only q = { s.only q with lastId := (c s).2.lastId }

/-- If the file is stored, it is one of the repository. -/
def Belongs (s : MemoryStore) (file : Int64) (q : String) : Prop :=
  ∀ f ∈ s.files, f.id = file → f.repository = q

variable {s : MemoryStore} {q : String}

/-! ## Questions -/

theorem filter_filter_of_imp {α : Type} {keep pick : α → Bool} {xs : List α}
    (h : ∀ x ∈ xs, pick x = true → keep x = true) :
    (xs.filter keep).filter pick = xs.filter pick := by
  rw [List.filter_filter]
  refine List.filter_congr fun x hx => ?_
  cases hpick : pick x with
  | false => rfl
  | true => rw [h x hx hpick, Bool.and_self]

theorem filesOf_only (s : MemoryStore) (q : String) : (s.only q).filesOf q = s.filesOf q :=
  filter_filter_of_imp fun _ _ => id

theorem knows_only (s : MemoryStore) (q : String) : (s.only q).knows q = s.knows q := by
  simp [only, knows, List.any_filter]

theorem holds_only (s : MemoryStore) (q path : String) :
    (s.only q).holds q path = s.holds q path := by
  unfold only holds filesOf
  rw [List.any_filter]
  congr 1
  funext f
  cases f.repository == q <;> rfl

theorem repositoryOf_only (s : MemoryStore) (q : String) :
    (s.only q).repositoryOf q = s.repositoryOf q := by
  unfold only repositoryOf
  rw [List.find?_filter]
  congr 1
  funext r
  cases r.id == q <;> rfl

theorem factsOf_only (s : MemoryStore) (q : String) :
    (s.only q).facts.filter (fun x => x.repository == q) =
      s.facts.filter (fun x => x.repository == q) :=
  filter_filter_of_imp fun _ _ => id

theorem edgesOf_only (s : MemoryStore) (q : String) :
    (s.only q).edges.filter (fun e => e.repository == q) =
      s.edges.filter (fun e => e.repository == q) :=
  filter_filter_of_imp fun _ _ => id

theorem hasFile_only {file : Int64} (h : s.Belongs file q) :
    (s.only q).contents.hasFile file = s.contents.hasFile file := by
  rw [Bool.eq_iff_iff, Contents.hasFile_iff, Contents.hasFile_iff]
  constructor
  · rintro ⟨f, hf, hid⟩
    exact ⟨f, (List.mem_filter.1 hf).1, hid⟩
  · rintro ⟨f, hf, hid⟩
    exact ⟨f, List.mem_filter.2 ⟨hf, beq_iff_eq.2 (h f hf hid)⟩, hid⟩

theorem confined_question {α : Type} {f : MemoryStore → α} (h : f (s.only q) = f s) :
    Confined q (.ask (fun s => .ok (f s))) s := by
  rw [Confined, Command.ask, Command.ask, h]

theorem confined_files (s : MemoryStore) (q : String) : Confined q (Storage.files q) s :=
  confined_question (f := fun s => s.filesOf q) (s.filesOf_only q)

theorem confined_facts (s : MemoryStore) (q : String) : Confined q (Storage.facts q) s :=
  confined_question (f := fun s => s.facts.filter (fun x => x.repository == q)) (s.factsOf_only q)

theorem confined_edges (s : MemoryStore) (q : String) : Confined q (Storage.edges q) s :=
  confined_question (f := fun s => s.edges.filter (fun e => e.repository == q)) (s.edgesOf_only q)

theorem confined_repository (s : MemoryStore) (q : String) : Confined q (Storage.repository q) s :=
  confined_question (f := fun s => s.repositoryOf q) (s.repositoryOf_only q)

theorem confined_factsOfFile (hw : s.contents.Whole) {file : Int64} (h : s.Belongs file q) :
    Confined q (Storage.factsOfFile file) s := by
  refine confined_question (f := fun s => s.facts.filter (fun x => x.file == file)) ?_
  simp only [only, List.filter_filter]
  refine List.filter_congr fun x hx => ?_
  obtain ⟨f, hf, hid, hr⟩ := hw.fact x hx
  by_cases hfile : x.file = file
  · simp [hfile, ← hr, h f hf (hid.trans hfile)]
  · simp [hfile]

/-! ## Changes for the repository -/

theorem checkFiles_only {new : List NewFile} (before : List NewFile)
    (h : ∀ f ∈ new, f.repository = q) :
    (s.only q).checkFiles before new = s.checkFiles before new := by
  induction new generalizing before with
  | nil => rfl
  | cons f new ih =>
    obtain ⟨rfl, hrest⟩ := List.forall_mem_cons.1 h
    rw [checkFiles, checkFiles, knows_only, holds_only, ih _ hrest]

theorem addFile_only {f : NewFile} (h : f.repository = q) :
    (s.only q).addFile f = ((s.addFile f).1, (s.addFile f).2.only q) := by
  simp [addFile, only, filesOf, h]

theorem addFiles_only {new : List NewFile} (h : ∀ f ∈ new, f.repository = q) :
    (s.only q).addFiles new = ((s.addFiles new).1, (s.addFiles new).2.only q) := by
  induction new generalizing s with
  | nil => rfl
  | cons f new ih =>
    obtain ⟨hf, hrest⟩ := List.forall_mem_cons.1 h
    simp only [addFiles, addFile_only hf, ih hrest]

theorem confined_insertFiles {new : List NewFile} (h : ∀ f ∈ new, f.repository = q) :
    Confined q (insertFiles new) s := by
  unfold Confined insertFiles
  rw [checkFiles_only [] h, addFiles_only h]
  cases s.checkFiles [] new <;> rfl

theorem removeFiles_only (s : MemoryStore) (q : String) (ids : List Int64) :
    (s.only q).removeFiles ids = (s.removeFiles ids).only q := by
  unfold removeFiles only filesOf
  simp only [List.filter_map, MemoryStore.mk.injEq, true_and]
  refine ⟨List.filter_comm _ _ _, List.filter_comm _ _ _, ?_⟩
  rw [List.filter_comm]
  rfl

theorem confined_clearFiles (s : MemoryStore) (q : String) : Confined q (clearFiles q) s := by
  simp only [Confined, clearFiles, filesOf_only, removeFiles_only]

theorem withoutFactsOf_only (s : MemoryStore) (q : String) (file : Int64) :
    (s.only q).withoutFactsOf file = (s.withoutFactsOf file).only q := by
  unfold withoutFactsOf only
  rw [List.filter_comm, List.filter_comm (p := fun e : StoredEdge => e.sourceFile != file)]
  rfl

theorem foldl_addFact_only (s : MemoryStore) (q : String) (file : Int64) (facts : List Fact) :
    facts.foldl (addFact file q) (s.only q) = (facts.foldl (addFact file q) s).only q := by
  refine List.foldl_hom (fun s : MemoryStore => s.only q) fun s x => ?_
  simp [addFact, only, filesOf]

theorem foldl_addEdge_only {edges : List Edge} (h : ∀ e ∈ edges, e.repository = q) :
    edges.foldl addEdge (s.only q) = (edges.foldl addEdge s).only q := by
  induction edges generalizing s with
  | nil => rfl
  | cons e edges ih =>
    obtain ⟨he, hrest⟩ := List.forall_mem_cons.1 h
    have hadd : (s.only q).addEdge e = (s.addEdge e).only q := by
      simp [addEdge, only, filesOf, he]
    rw [List.foldl_cons, List.foldl_cons, hadd, ih hrest]

theorem confined_replaceFacts {file : Int64} (h : s.Belongs file q) (facts : List Fact)
    (edges : List Edge) : Confined q (replaceFacts file q facts edges) s := by
  unfold Confined replaceFacts
  cases hcheck : checkEdges file q edges with
  | error e => rfl
  | ok _ =>
    have hown : ∀ e ∈ edges, e.repository = q := fun e he => (checkEdges_iff.1 hcheck e he).2
    have hfile : (s.only q).files.any (fun f => f.id == file) =
        s.files.any (fun f => f.id == file) :=
      hasFile_only h
    simp only [hfile, withoutFactsOf_only, foldl_addFact_only, foldl_addEdge_only hown]
    split <;> rfl

/-- The record that is written has the key of the one that it takes the place of. -/
theorem filter_put {r : Repository} {id : String} (hr : r.id = id) (q : String)
    (repositories : List Repository) :
    (repositories.map (fun o => if o.id == id then r else o)).filter (fun o => o.id == q) =
      (repositories.filter (fun o => o.id == q)).map (fun o => if o.id == id then r else o) := by
  rw [List.filter_map]
  congr 1
  refine List.filter_congr fun o _ => ?_
  by_cases ho : o.id = id <;> simp [ho, hr]

theorem confined_updateRepository (s : MemoryStore) (q : String) (u : RepositoryUpdate) :
    Confined q (updateRepository q u) s := by
  unfold Confined updateRepository
  rw [repositoryOf_only]
  cases hr : s.repositoryOf q with
  | none => 
    have hfresh : ((Repository.fresh q).apply u).id = q := rfl
    simp [only, filesOf, hfresh]
  | some r =>
    have hof : s.contents.repositoryOf q = some r := hr
    have hid : r.id = q := Contents.repositoryOf_id hof
    have hkept : (r.apply u).id = q := hid
    simp only [only, filter_put hkept]
    rfl

theorem confined_deleteRepository (s : MemoryStore) (q : String) :
    Confined q (deleteRepository q) s := by
  simp only [Confined, deleteRepository, knows_only, filesOf_only, removeFiles_only]
  generalize s.removeFiles ((s.filesOf q).map (·.id)) = cleared
  split
  · simp only [only, filesOf]
    rw [List.filter_comm, List.filter_comm (p := fun e : StoredEdge => e.repository != q)]
  · rfl

/-! ## Changes for another repository -/

variable {other : String}

theorem filter_other_eq_nil {α : Type} {key : α → String} {xs : List α} (hne : other ≠ q)
    (h : ∀ x ∈ xs, key x = other) : xs.filter (fun x => key x == q) = [] := by
  refine List.filter_eq_nil_iff.2 fun x hx => ?_
  rw [h x hx]
  simpa using hne

theorem spared_insertFiles (hne : other ≠ q) {new : List NewFile}
    (h : ∀ f ∈ new, f.repository = other) : Spared q (insertFiles new) s := by
  unfold Spared
  rcases s.insertFiles_cases new with ⟨e, hrun, -⟩ | ⟨stored, id, hrun, -, hnew, -⟩
  · rw [hrun]
    rfl
  · have hnone : stored.filter (fun f => f.repository == q) = [] :=
      filter_other_eq_nil hne fun f hf => h f.toNewFile (hnew ▸ List.mem_map_of_mem hf)
    rw [hrun]
    simp only [only, filesOf, List.filter_append, hnone, List.append_nil]

theorem detach_of_stays {ids : List Int64} {e : StoredEdge} (h : ∀ t ∈ e.targetFile, t ∉ ids) :
    detach ids e = e := by
  obtain ⟨⟨repository, sourceFile, _ | t, externalTarget, kind, specifier, line⟩, id⟩ := e
  · rfl
  · have ht : t ∉ ids := h t rfl
    simp [detach, ht]

/-- Files of another repository are removed without a trace in this one. -/
theorem removeFiles_elsewhere (h : s.Orderly) (hne : other ≠ q) :
    (s.removeFiles (s.contents.idsOf other)).only q = s.only q := by
  have hfile : ∀ f ∈ s.files, (f.repository == q) = true →
      (!(s.contents.idsOf other).contains f.id) = true := by
    intro f hf hr
    have hids : f.id ∈ s.contents.idsOf other ↔ f.repository = other :=
      Contents.Distinct.mem_idsOf_iff h.whole.distinct hf
    simp [hids, beq_iff_eq.1 hr, hne.symm]
  have hfact : ∀ x ∈ s.facts, (x.repository == q) = true →
      (!(s.contents.idsOf other).contains x.file) = true := by
    intro x hx hr
    simp [h.whole.fact_mem_idsOf hx, beq_iff_eq.1 hr, hne.symm]
  have hedge : ∀ e ∈ s.edges, (e.repository == q) = true →
      (!(s.contents.idsOf other).contains e.sourceFile) = true := by
    intro e he hr
    simp [h.whole.edge_mem_idsOf he, beq_iff_eq.1 hr, hne.symm]
  simp only [only, removeFiles, filesOf, filter_filter_of_imp hfile, filter_filter_of_imp hfact,
    List.filter_map, MemoryStore.mk.injEq, true_and]
  refine Eq.trans ?_ (List.map_id _)
  refine (congrArg _ (filter_filter_of_imp hedge)).trans (List.map_congr_left fun e he => ?_)
  -- the target is a file of the same repository, and so it is not among those that go
  obtain ⟨he, hr⟩ := List.mem_filter.1 he
  refine detach_of_stays fun t ht hgone => ?_
  obtain ⟨f, hf, rfl, hfr⟩ := h.inward e he t ht
  have hstays := hfile f hf (by rw [hfr]; exact hr)
  simp [hgone] at hstays

theorem spared_clearFiles (h : s.Orderly) (hne : other ≠ q) : Spared q (clearFiles other) s :=
  removeFiles_elsewhere h hne

theorem spared_replaceFacts (h : s.Orderly) (hne : other ≠ q) {file : Int64}
    (hfile : s.Belongs file other) (facts : List Fact) (edges : List Edge) :
    Spared q (replaceFacts file other facts edges) s := by
  unfold Spared
  rcases s.replaceFacts_cases file other facts edges with ⟨e, hrun, -⟩ |
    ⟨newFacts, newEdges, id, hrun, hcheck, -, hfacts, hedges, -⟩
  · rw [hrun]
    rfl
  · have hnoFacts : newFacts.filter (fun x => x.repository == q) = [] :=
      filter_other_eq_nil hne fun x hx => ((hang_of_map_eq hfacts).2 x hx).2
    have hnoEdges : newEdges.filter (fun e => e.repository == q) = [] :=
      filter_other_eq_nil hne fun e he =>
        (checkEdges_iff.1 hcheck e.toEdge (hedges ▸ List.mem_map_of_mem he)).2
    -- no file of this repository is the one that is given other facts
    have hother : ∀ f ∈ s.files, f.repository = q → f.id ≠ file :=
      fun f hf hr hid => hne ((hfile f hf hid).symm.trans hr)
    have hfact : ∀ x ∈ s.facts, (x.repository == q) = true → (x.file != file) = true := by
      intro x hx hr
      obtain ⟨f, hf, hid, hfr⟩ := h.whole.fact x hx
      rw [bne_iff_ne, ← hid]
      exact hother f hf (hfr.trans (beq_iff_eq.1 hr))
    have hedge : ∀ e ∈ s.edges, (e.repository == q) = true → (e.sourceFile != file) = true := by
      intro e he hr
      obtain ⟨f, hf, hid, hfr⟩ := h.whole.edge e he
      rw [bne_iff_ne, ← hid]
      exact hother f hf (hfr.trans (beq_iff_eq.1 hr))
    rw [hrun]
    simp only [only, withoutFactsOf, filesOf, List.filter_append, hnoFacts, hnoEdges,
      List.append_nil, filter_filter_of_imp hfact, filter_filter_of_imp hedge]

theorem spared_updateRepository (s : MemoryStore) (hne : other ≠ q) (u : RepositoryUpdate) :
    Spared q (updateRepository other u) s := by
  unfold Spared updateRepository
  cases hr : s.repositoryOf other with
  | none =>
    have hfresh : ((Repository.fresh other).apply u).id = other := rfl
    simp [only, filesOf, hfresh, hne]
  | some r =>
    have hof : s.contents.repositoryOf other = some r := hr
    have hid : r.id = other := Contents.repositoryOf_id hof
    have hkept : (r.apply u).id = other := hid
    have hsame : (s.repositories.filter (fun o => o.id == q)).map
        (fun o => if o.id == other then r.apply u else o) =
          s.repositories.filter (fun o => o.id == q) := by
      refine (List.map_congr_left fun o ho => ?_).trans (List.map_id _)
      rw [beq_iff_eq.1 (List.mem_filter.1 ho).2, if_neg (by simpa using hne.symm)]
      rfl
    simp only [only, filter_put hkept, hsame]
    rfl

theorem spared_deleteRepository (h : s.Orderly) (hne : other ≠ q) :
    Spared q (deleteRepository other) s := by
  have hcleared : (s.removeFiles ((s.filesOf other).map (·.id))).only q = s.only q :=
    removeFiles_elsewhere h hne
  have hkeep : ∀ p : String, (p == q) = true → (p != other) = true := by
    intro p hp
    rw [beq_iff_eq.1 hp, bne_iff_ne]
    exact hne.symm
  unfold Spared deleteRepository
  split
  · refine Eq.trans ?_ hcleared
    simp only [only, filter_filter_of_imp fun (r : Repository) _ => hkeep r.id,
      filter_filter_of_imp fun (e : StoredEdge) _ => hkeep e.repository]
    rfl
  · rfl

end MemoryStore

/-! ## Calls -/

/-- The name is that of a file of the repository that was returned, or a number that was not given
out. -/
def FileName.Of (k : Client MemoryStore) (q : String) : FileName → Prop
  | returned n => ∃ f, k.returned[n]? = some f ∧ f.repository = q
  | number id => ¬ k.store.Gave id

/-- The call is for the repository. Edges may start anywhere, and so be refused, but files are named
as the client knows them. -/
def StoreCall.On (k : Client MemoryStore) (q : String) : StoreCall → Prop
  | insertFiles new => ∀ f ∈ new, f.repository = q
  | replaceFacts n _ es => FileName.Of k q (.returned n) ∧
      ∀ e ∈ es, e.source.Known k
  | factsOfFile file => file.Of k q
  | files r => r = q
  | clearFiles r => r = q
  | facts r => r = q
  | edges r => r = q
  | updateRepository r _ => r = q
  | repository r => r = q
  | deleteRepository r => r = q

namespace Client

open MemoryStore

/-- The client, with what its store holds of a repository. -/
def only (k : Client MemoryStore) (q : String) : Client MemoryStore :=
  { k with store := k.store.only q }

variable {k : Client MemoryStore} {q other : String} {call : StoreCall}

theorem run_only {α : Type} {c : Command MemoryStore α} (h : Confined q c k.store)
    (answer : α → StoreAnswer) :
    (k.only q).run c answer = ((k.run c answer).1, (k.run c answer).2.only q) := by
  unfold Confined at h
  simp only [Client.run, only, h]

theorem Orderly.belongs (h : k.Orderly) {file : FileName} (hof : file.Of k q) :
    k.store.Belongs (k.idOf file) q := by
  intro g hg hid
  cases file with
  | returned n =>
    obtain ⟨f, hf, rfl⟩ := hof
    simp only [Client.idOf, hf, Option.map_some, Option.getD_some] at hid
    rw [(h.returned f (List.mem_of_getElem? hf)).file g hg hid]
  | number id =>
    simp only [Client.idOf] at hid
    exact absurd (hid ▸ h.store.files g hg) hof

/-- A call for the repository gets its answer from what is stored of the repository, and is told
of nothing else. -/
theorem ask_only (h : k.Orderly) (hon : call.On k q) :
    (k.only q).ask call = ((k.ask call).1, (k.ask call).2.only q) := by
  cases call with
  | insertFiles new =>
    have hconfined : Confined q (MemoryStore.insertFiles new) k.store := confined_insertFiles hon
    unfold Confined at hconfined
    rcases k.store.insertFiles_cases new with ⟨e, hrun, -⟩ | ⟨stored, id, hrun, -⟩ <;>
      simp only [Client.ask, Storage.insertFiles, only, hconfined, hrun]
  | replaceFacts n facts es =>
    have hbelongs := h.belongs hon.1
    obtain ⟨⟨f, hf, rfl⟩, -⟩ := hon
    simp only [Client.idOf, hf, Option.map_some, Option.getD_some] at hbelongs
    have hrun := run_only (confined_replaceFacts hbelongs facts (es.map k.edge)) (fun _ => .done)
    have hfound : (k.only f.repository).returned[n]? = some f := hf
    rw [ask_replaceFacts hf, ask_replaceFacts hfound]
    exact hrun
  | factsOfFile file =>
    exact run_only (confined_factsOfFile h.store.whole (h.belongs hon)) _
  | files r =>
    obtain rfl : r = q := hon
    exact run_only (k.store.confined_files r) _
  | clearFiles r =>
    obtain rfl : r = q := hon
    exact run_only (k.store.confined_clearFiles r) _
  | facts r =>
    obtain rfl : r = q := hon
    exact run_only (k.store.confined_facts r) _
  | edges r =>
    obtain rfl : r = q := hon
    exact run_only (k.store.confined_edges r) _
  | updateRepository r u =>
    obtain rfl : r = q := hon
    exact run_only (k.store.confined_updateRepository r u) _
  | repository r =>
    obtain rfl : r = q := hon
    exact run_only (k.store.confined_repository r) _
  | deleteRepository r =>
    obtain rfl : r = q := hon
    exact run_only (k.store.confined_deleteRepository r) _

/-- A call for another repository leaves what is stored of this one. -/
theorem ask_elsewhere (h : k.Orderly) (hne : other ≠ q) (hon : call.On k other) :
    (k.ask call).2.store.only q =
      { k.store.only q with lastId := (k.ask call).2.store.lastId } := by
  cases call with
  | insertFiles new =>
    rw [store_ask_insertFiles]
    exact spared_insertFiles hne hon
  | replaceFacts n facts es =>
    have hbelongs := h.belongs hon.1
    obtain ⟨⟨f, hf, rfl⟩, -⟩ := hon
    simp only [Client.idOf, hf, Option.map_some, Option.getD_some] at hbelongs
    rw [ask_replaceFacts hf]
    exact spared_replaceFacts h.store hne hbelongs facts (es.map k.edge)
  | clearFiles r =>
    obtain rfl : r = other := hon
    exact spared_clearFiles h.store hne
  | updateRepository r u =>
    obtain rfl : r = other := hon
    exact k.store.spared_updateRepository hne u
  | deleteRepository r =>
    obtain rfl : r = other := hon
    exact spared_deleteRepository h.store hne
  | _ => rfl

end Client

end CodeSurvey
