-- Two stores in memory that hold the same up to the ids. A store in memory takes all ids
-- from one counter, and so one renaming serves the records of all kinds. A call that
-- means the same to both leaves them so. It is answered in the same way by both, also
-- when it is refused.
import CodeSurvey.Proofs.Store.Fair

namespace CodeSurvey

/-! ## One renaming -/

namespace Renaming

/-- The renaming for records of every kind. -/
def forAll (ρ : Renaming) : Renamings := ⟨ρ, ρ, ρ⟩

theorem Extends.forAll {ρ ρ' : Renaming} (h : ρ'.Extends ρ) : ρ'.forAll.Extends ρ.forAll :=
  ⟨h, h, h⟩

end Renaming

/-! ## Answers -/

/-- The complaints are the same but for the ids of files. -/
inductive SameFailure (ρ : Renaming) : Failure → Failure → Prop
  | unknownRepository (id : String) : SameFailure ρ (.unknownRepository id) (.unknownRepository id)
  | alreadyStored (path repository : String) :
      SameFailure ρ (.alreadyStored path repository) (.alreadyStored path repository)
  | unknownFile {i j : Int64} : ρ.Sends i j → SameFailure ρ (.unknownFile i) (.unknownFile j)
  | foreignEdge {i j : Int64} (specifier repository : String) : ρ.Sends i j →
      SameFailure ρ (.foreignEdge specifier i repository) (.foreignEdge specifier j repository)

/-- What comes of a call is the same but for ids. -/
inductive SameOutcome (ρ : Renaming) :
    Except Failure StoreAnswer → Except Failure StoreAnswer → Prop
  | refused {e e' : Failure} : SameFailure ρ e e' → SameOutcome ρ (.error e) (.error e')
  | answered {a b : StoreAnswer} : SameAnswer ρ.forAll a b → SameOutcome ρ (.ok a) (.ok b)

section Extended

variable {ρ ρ' : Renaming}

theorem SameFailure.extend (he : ρ'.Extends ρ) {e e' : Failure} (h : SameFailure ρ e e') :
    SameFailure ρ' e e' := by
  cases h with
  | unknownRepository id => exact .unknownRepository id
  | alreadyStored path repository => exact .alreadyStored path repository
  | unknownFile h => exact .unknownFile (he _ _ h)
  | foreignEdge specifier repository h => exact .foreignEdge specifier repository (he _ _ h)

theorem SameOutcome.extend (he : ρ'.Extends ρ) {a b : Except Failure StoreAnswer}
    (h : SameOutcome ρ a b) : SameOutcome ρ' a b := by
  cases h with
  | refused h => exact .refused (h.extend he)
  | answered h => exact .answered (h.extend he.forAll)

end Extended

/-! ## Stores -/

namespace MemoryStore

variable {ρ : Renaming} {s t : MemoryStore}

/-- What is wrong with files is told without any id. -/
theorem sameFailure_of_checkFiles (ρ : Renaming) {before new : List NewFile} {e : Failure}
    (h : s.checkFiles before new = .error e) : SameFailure ρ e e := by
  induction new generalizing before with
  | nil => cases h
  | cons f new ih =>
    unfold checkFiles at h
    split at h
    · obtain rfl := Except.error.inj h
      exact .unknownRepository f.repository
    · split at h
      · obtain rfl := Except.error.inj h
        exact .alreadyStored f.path f.repository
      · exact ih h

theorem checkFiles_alike (h : Alike ρ.forAll s.contents t.contents) (before new : List NewFile) :
    s.checkFiles before new = t.checkFiles before new := by
  induction new generalizing before with
  | nil => rfl
  | cons f new ih =>
    have hknows : s.knows f.repository = t.knows f.repository := h.knows f.repository
    have hholds : s.holds f.repository f.path = t.holds f.repository f.path :=
      h.hasPath f.repository f.path
    rw [checkFiles, checkFiles, hknows, hholds, ih]

/-- Facts are not replaced where an edge is complained of. -/
theorem replaceFacts_foreign (s : MemoryStore) {file : Int64} {repository : String}
    (facts : List Fact) {edges : List Edge} {e : Failure}
    (h : checkEdges file repository edges = .error e) :
    replaceFacts file repository facts edges s = (.error e, s) := by
  simp only [replaceFacts, h]

/-- Or where the file is not stored. -/
theorem replaceFacts_unknown {file : Int64} {repository : String} (facts : List Fact)
    {edges : List Edge} (hcheck : checkEdges file repository edges = .ok ())
    (h : s.contents.hasFile file = false) :
    replaceFacts file repository facts edges s = (.error (.unknownFile file), s) := by
  have hfile : s.files.any (fun f => f.id == file) = false := h
  simp only [replaceFacts, hcheck, hfile, Bool.false_eq_true, if_false]

theorem removeFiles_alike (h : Alike ρ.forAll s.contents t.contents) (repository : String) :
    Alike ρ.forAll (s.removeFiles (s.contents.idsOf repository)).contents
      (t.removeFiles (t.contents.idsOf repository)).contents := by
  have hcleared := h.clear repository
  refine ⟨h.repositories, ?_, hcleared.facts, hcleared.edges⟩
  exact forall₂_filter h.files fun _ _ hf => by rw [hf.id.contains_eq (h.idsOf repository)]

theorem deleteRepository_alike (h : Alike ρ.forAll s.contents t.contents) (id : String) :
    ∃ b s' t', deleteRepository id s = (.ok b, s') ∧ deleteRepository id t = (.ok b, t') ∧
      Alike ρ.forAll s'.contents t'.contents ∧ s'.lastId = s.lastId ∧ t'.lastId = t.lastId := by
  have hremoved := removeFiles_alike h id
  have hknows : s.knows id = t.knows id := h.knows id
  unfold deleteRepository
  rw [hknows]
  cases t.knows id with
  | false => exact ⟨false, s, t, rfl, rfl, h, rfl, rfl⟩
  | true =>
    refine ⟨true, _, _, rfl, rfl, ⟨?_, hremoved.files, hremoved.facts, ?_⟩, rfl, rfl⟩
    · exact congrArg (List.filter _) h.repositories
    · exact forall₂_filter hremoved.edges fun _ _ he => by rw [he.edge.repository]

theorem updateRepository_alike (h : Alike ρ.forAll s.contents t.contents) (id : String)
    (u : RepositoryUpdate) :
    ∃ r s' t', updateRepository id u s = (.ok r, s') ∧ updateRepository id u t = (.ok r, t') ∧
      Alike ρ.forAll s'.contents t'.contents ∧ s'.lastId = s.lastId ∧ t'.lastId = t.lastId := by
  obtain ⟨s', hrun, hlast, hs'⟩ := s.updateRepository_contents id u
  obtain ⟨t', hrun', hlast', ht'⟩ := t.updateRepository_contents id u
  refine ⟨_, s', t', hrun, ?_, ?_, hlast, hlast'⟩
  · rw [hrun', h.updated]
  · rw [hs', ht', h.updated]
    exact h.putRepository _

end MemoryStore

/-! ## Calls -/

/-- Files are named in the call as the client knows them. -/
def StoreCall.Known (k : Client MemoryStore) : StoreCall → Prop
  | replaceFacts n _ es => n < k.returned.length ∧
      ∀ e ∈ es, e.source.Known k ∧ ∀ t ∈ e.target, t < k.returned.length
  | factsOfFile file => file.Known k
  | _ => True

/-- The files that the client knows and those that facts hang on have ids that were given out. -/
structure Client.Given (k : Client MemoryStore) : Prop where
  returned : ∀ f ∈ k.returned, k.store.Gave f.id
  facts : ∀ x ∈ k.store.facts, k.store.Gave x.file

/-- The stores hold the same up to the renaming, and returned the same files. -/
structure Matched (ρ : Renaming) (k l : Client MemoryStore) : Prop where
  alike : Alike ρ.forAll k.store.contents l.store.contents
  returned : List.Forall₂ (SameFile ρ.forAll) k.returned l.returned
  below : ρ.Below k.store.lastId l.store.lastId

/-- A call gets the same answer from both, which are matched again, and have given out as many new
ids as each other. -/
structure InStep (ρ : Renaming) (k l : Client MemoryStore) (call : StoreCall) : Prop where
  matched : ∃ ρ' : Renaming, ρ'.Extends ρ ∧ SameOutcome ρ' (k.ask call).1 (l.ask call).1 ∧
    Matched ρ' (k.ask call).2 (l.ask call).2
  counts : (k.ask call).2.store.lastId.toInt - k.store.lastId.toInt =
    (l.ask call).2.store.lastId.toInt - l.store.lastId.toInt

namespace Matched

variable {ρ : Renaming} {k l : Client MemoryStore} {call : StoreCall}

/-- No ids are given out. -/
theorem inStep_of_run (h : Matched ρ k l) {a b : Except Failure StoreAnswer} {s t : MemoryStore}
    (hk : k.ask call = (a, { k with store := s })) (hl : l.ask call = (b, { l with store := t }))
    (hab : SameOutcome ρ a b) (halike : Alike ρ.forAll s.contents t.contents)
    (hs : s.lastId = k.store.lastId) (ht : t.lastId = l.store.lastId) : InStep ρ k l call where
  matched := by
    rw [hk, hl]
    refine ⟨ρ, .refl ρ, hab, halike, h.returned, ?_⟩
    simp only [hs, ht]
    exact h.below
  counts := by
    rw [hk, hl]
    simp only [hs, ht, Int.sub_self]

/-- Nothing is changed. -/
theorem inStep_of_same (h : Matched ρ k l) {a b : Except Failure StoreAnswer}
    (hk : k.ask call = (a, k)) (hl : l.ask call = (b, l)) (hab : SameOutcome ρ a b) :
    InStep ρ k l call :=
  h.inStep_of_run hk hl hab h.alike rfl rfl

/-! ### Files by their names -/

theorem idOf_returned (h : Matched ρ k l) {n : Nat} (hn : n < k.returned.length) :
    ρ.Sends (k.idOf (.returned n)) (l.idOf (.returned n)) := by
  have hf := List.getElem?_eq_getElem hn
  obtain ⟨g, hg, hs⟩ := exists_of_getElem?_left h.returned hf
  simp only [Client.idOf, hf, hg, Option.map_some, Option.getD_some]
  exact hs.id

/-- Both clients name the returned file by a name, or neither does. -/
theorem idOf_eq_iff (h : Matched ρ k l) (hk : k.Given) (hl : l.Given) {file : FileName}
    (hknown : file.Known k) (hknown' : file.Known l) {f g : StoredFile} (hf : f ∈ k.returned)
    (hg : g ∈ l.returned) (hs : SameFile ρ.forAll f g) :
    k.idOf file = f.id ↔ l.idOf file = g.id := by
  cases file with
  | returned n => exact (h.idOf_returned hknown).eq_iff hs.id
  | number id =>
    simp only [Client.idOf]
    exact ⟨fun heq => absurd (heq ▸ hk.returned f hf) hknown,
      fun heq => absurd (heq ▸ hl.returned g hg) hknown'⟩

theorem factsOfFile (h : Matched ρ k l) (hk : k.Given) (hl : l.Given) {file : FileName}
    (hknown : file.Known k) (hknown' : file.Known l) :
    List.Forall₂ (SameFact ρ.forAll) (k.store.contents.factsOfFile (k.idOf file))
      (l.store.contents.factsOfFile (l.idOf file)) := by
  cases file with
  | returned n => exact h.alike.factsOfFile (h.idOf_returned hknown)
  | number id =>
    have hnone : ∀ m : Client MemoryStore, m.Given → ¬ m.store.Gave id →
        m.store.contents.factsOfFile id = [] := by
      intro m hm hfree
      refine List.filter_eq_nil_iff.2 fun x hx hfile => hfree ?_
      rw [← beq_iff_eq.1 hfile]
      exact hm.facts x hx
    simp only [Client.idOf]
    rw [hnone k hk hknown, hnone l hl hknown']
    exact .nil

/-! ### Calls that store files -/

theorem insertFiles (h : Matched ρ k l) (new : List NewFile)
    (hroom : k.store.lastId.toInt + new.length < Text.wordSize 63)
    (hroom' : l.store.lastId.toInt + new.length < Text.wordSize 63) :
    InStep ρ k l (.insertFiles new) := by
  have hcheck := MemoryStore.checkFiles_alike h.alike [] new
  cases hl : l.store.checkFiles [] new with
  | error e =>
    rw [hl] at hcheck
    refine h.inStep_of_same ?_ ?_ (.refused (MemoryStore.sameFailure_of_checkFiles ρ hl))
    · simp only [Client.ask, Storage.insertFiles, MemoryStore.insertFiles, hcheck]
    · simp only [Client.ask, Storage.insertFiles, MemoryStore.insertFiles, hl]
  | ok _ =>
    rw [hl] at hcheck
    obtain ⟨stored, id, hadd, hnew, hids⟩ := k.store.addFiles_counted new
    obtain ⟨stored', id', hadd', hnew', hids'⟩ := l.store.addFiles_counted new
    have hsame := forall₂_of_map_eq (hnew.trans hnew'.symm)
    have hlength : (stored.map (·.id)).length = new.length := by
      rw [← hnew, List.length_map, List.length_map]
    have hlength' : (stored'.map (·.id)).length = new.length := by
      rw [← hnew', List.length_map, List.length_map]
    obtain ⟨hnumbered, hid⟩ := hids.numbered (by rw [hlength]; exact hroom)
    obtain ⟨hnumbered', hid'⟩ := hids'.numbered (by rw [hlength']; exact hroom')
    obtain ⟨ρ', hextends, hbelow, hsends⟩ := ρ.exists_extension h.below hnumbered hnumbered'
      (hlength.trans hlength'.symm) (by omega) (by omega)
    have hstored : List.Forall₂ (SameFile ρ'.forAll) stored stored' := by
      rw [List.forall₂_map_left_iff, List.forall₂_map_right_iff] at hsends
      exact hsends.mp (fun _ _ hid hfile => ⟨hid, hfile⟩) hsame
    have hk : k.ask (.insertFiles new) = (.ok (.files stored),
        ⟨{ k.store with lastId := id, files := k.store.files ++ stored },
          k.returned ++ stored⟩) := by
      simp only [Client.ask, Storage.insertFiles, MemoryStore.insertFiles, hcheck, hadd]
    have hl : l.ask (.insertFiles new) = (.ok (.files stored'),
        ⟨{ l.store with lastId := id', files := l.store.files ++ stored' },
          l.returned ++ stored'⟩) := by
      simp only [Client.ask, Storage.insertFiles, MemoryStore.insertFiles, hl, hadd']
    refine ⟨?_, by rw [hk, hl]; simp only; omega⟩
    rw [hk, hl]
    exact ⟨ρ', hextends, .answered (.files hstored),
      (h.alike.extend hextends.forAll).addFiles hstored,
      List.rel_append (h.returned.imp fun _ _ => SameFile.extend hextends.forAll) hstored, hbelow⟩

/-! ### Calls that replace facts -/

section Replacing

variable {f g : StoredFile} {es : List EdgeCall}

/-- Edges of a call, as both clients hand them over for a file: the one starts elsewhere just when
the other one does. -/
structure SameDraft (f g : StoredFile) (e d : Edge) : Prop where
  specifier : e.specifier = d.specifier
  repository : e.repository = d.repository
  source : e.sourceFile = f.id ↔ d.sourceFile = g.id

theorem sameDraft (h : Matched ρ k l) (hk : k.Given) (hl : l.Given) (hf : f ∈ k.returned)
    (hg : g ∈ l.returned) (hs : SameFile ρ.forAll f g)
    (hknown : ∀ e ∈ es, e.source.Known k) (hknown' : ∀ e ∈ es, e.source.Known l) :
    List.Forall₂ (SameDraft f g) (es.map k.edge) (es.map l.edge) := by
  rw [List.forall₂_map_left_iff, List.forall₂_map_right_iff, List.forall₂_same]
  exact fun e he => ⟨rfl, rfl, h.idOf_eq_iff hk hl (hknown e he) (hknown' e he) hf hg hs⟩

/-- The same edge is complained of, or none. -/
theorem checkEdges_same (hs : SameFile ρ.forAll f g) {edges drafts : List Edge}
    (hsame : List.Forall₂ (SameDraft f g) edges drafts) :
    (checkEdges f.id f.repository edges = .ok () ∧ checkEdges g.id g.repository drafts = .ok ()) ∨
      ∃ e e', checkEdges f.id f.repository edges = .error e ∧
        checkEdges g.id g.repository drafts = .error e' ∧ SameFailure ρ e e' := by
  have hrepository : f.repository = g.repository := by rw [hs.file]
  have hpick : ∀ e d, SameDraft f g e d →
      (e.sourceFile != f.id || e.repository != f.repository) =
        (d.sourceFile != g.id || d.repository != g.repository) := by
    intro e d hsame
    rw [Bool.eq_iff_iff]
    simp [hsame.source, hsame.repository, hrepository]
  have hfound := forall₂_find? hsame hpick
  unfold checkEdges
  revert hfound
  generalize edges.find? _ = first
  generalize drafts.find? _ = first'
  intro hfound
  cases hfound with
  | none => exact .inl ⟨rfl, rfl⟩
  | some hdraft =>
    refine .inr ⟨_, _, rfl, rfl, ?_⟩
    rw [hdraft.specifier, hrepository]
    exact .foreignEdge _ _ hs.id

/-- Edges that are stored for the file are the same but for ids. -/
theorem sameEnds (h : Matched ρ k l) (hs : SameFile ρ.forAll f g)
    (hcheck : checkEdges f.id f.repository (es.map k.edge) = .ok ())
    (hcheck' : checkEdges g.id g.repository (es.map l.edge) = .ok ())
    (htargets : ∀ e ∈ es, ∀ t ∈ e.target, t < k.returned.length)
    {newEdges newEdges' : List StoredEdge} (hedges : newEdges.map (·.toEdge) = es.map k.edge)
    (hedges' : newEdges'.map (·.toEdge) = es.map l.edge) :
    List.Forall₂ (fun e d => SameEnds ρ.forAll e.toEdge d.toEdge) newEdges newEdges' := by
  have hmap : List.Forall₂ (SameEnds ρ.forAll) (newEdges.map (·.toEdge))
      (newEdges'.map (·.toEdge)) := by
    rw [hedges, hedges', List.forall₂_map_left_iff, List.forall₂_map_right_iff, List.forall₂_same]
    intro e he
    have hsource := (checkEdges_iff.1 hcheck (k.edge e) (List.mem_map_of_mem he)).1
    have hsource' := (checkEdges_iff.1 hcheck' (l.edge e) (List.mem_map_of_mem he)).1
    refine ⟨rfl, by rw [hsource, hsource']; exact hs.id, ?_, rfl, rfl, rfl, rfl⟩
    simp only [Client.edge]
    cases ht : e.target with
    | none => exact .none
    | some t => exact .some (h.idOf_returned (htargets e he t ht))
  rwa [List.forall₂_map_left_iff, List.forall₂_map_right_iff] at hmap

/-- Facts and edges that are stored in the place of others are the same once the renaming is
extended by their ids. -/
theorem exists_replaced (h : Matched ρ k l) (hs : SameFile ρ.forAll f g) {facts : List Fact}
    {newFacts newFacts' : List StoredFact} {newEdges newEdges' : List StoredEdge} {id id' : Int64}
    (hfacts : newFacts.map (fun x => (x.file, x.repository, x.fact)) =
      facts.map (fun a => (f.id, f.repository, a)))
    (hfacts' : newFacts'.map (fun x => (x.file, x.repository, x.fact)) =
      facts.map (fun a => (g.id, g.repository, a)))
    (hedges : List.Forall₂ (fun e d => SameEnds ρ.forAll e.toEdge d.toEdge) newEdges newEdges')
    (hids : Numbered k.store.lastId id (newFacts.map (·.id) ++ newEdges.map (·.id)))
    (hids' : Numbered l.store.lastId id' (newFacts'.map (·.id) ++ newEdges'.map (·.id)))
    (hup : k.store.lastId.toInt ≤ id.toInt) (hup' : l.store.lastId.toInt ≤ id'.toInt) :
    ∃ ρ' : Renaming, ρ'.Extends ρ ∧ ρ'.Below id id' ∧
      List.Forall₂ (SameFact ρ'.forAll) newFacts newFacts' ∧
      List.Forall₂ (SameEdge ρ'.forAll) newEdges newEdges' := by
  have hrepository : f.repository = g.repository := by rw [hs.file]
  rw [hrepository] at hfacts
  have hsame := forall₂_of_map_eq
    ((hang_of_map_eq hfacts).1.trans (hang_of_map_eq hfacts').1.symm)
  have hlength : (newFacts.map (·.id)).length = (newFacts'.map (·.id)).length := by
    rw [List.length_map, List.length_map, hsame.length_eq]
  have hlengths : (newFacts.map (·.id) ++ newEdges.map (·.id)).length =
      (newFacts'.map (·.id) ++ newEdges'.map (·.id)).length := by
    rw [List.length_append, List.length_append, hlength]
    simp only [List.length_map, hedges.length_eq]
  obtain ⟨ρ', hextends, hbelow, hsends⟩ :=
    ρ.exists_extension h.below hids hids' hlengths hup hup'
  have hfactIds := List.forall₂_take_append _ _ _ hsends
  have hedgeIds := List.forall₂_drop_append _ _ _ hsends
  rw [← hlength, List.take_left] at hfactIds
  rw [← hlength, List.drop_left] at hedgeIds
  exact ⟨ρ', hextends, hbelow,
    sameFacts_of_ids (hextends _ _ hs.id) hfacts hfacts' hfactIds,
    sameEdges_of_ids (hedges.imp fun _ _ he => he.extend hextends.forAll) hedgeIds⟩

theorem replaceFacts (h : Matched ρ k l) (hk : k.Given) (hl : l.Given) {n : Nat}
    {facts : List Fact} (hknown : (StoreCall.replaceFacts n facts es).Known k)
    (hknown' : (StoreCall.replaceFacts n facts es).Known l)
    (hroom : k.store.lastId.toInt + (facts.length + es.length : Nat) < Text.wordSize 63)
    (hroom' : l.store.lastId.toInt + (facts.length + es.length : Nat) < Text.wordSize 63) :
    InStep ρ k l (.replaceFacts n facts es) := by
  have hf := List.getElem?_eq_getElem hknown.1
  obtain ⟨g, hg, hs⟩ := exists_of_getElem?_left h.returned hf
  have hdrafts := h.sameDraft hk hl (List.mem_of_getElem? hf) (List.mem_of_getElem? hg) hs
    (fun e he => (hknown.2 e he).1) (fun e he => (hknown'.2 e he).1)
  have hask := Client.ask_replaceFacts hf facts es
  have hask' := Client.ask_replaceFacts hg facts es
  rcases checkEdges_same hs hdrafts with ⟨hcheck, hcheck'⟩ | ⟨e, e', hbad, hbad', hfailure⟩
  · have hfile := h.alike.hasFile hs.id
    cases hstored' : l.store.contents.hasFile g.id with
    | false =>
      rw [hstored'] at hfile
      have hrun := MemoryStore.replaceFacts_unknown facts hcheck hfile
      have hrun' := MemoryStore.replaceFacts_unknown facts hcheck' hstored'
      exact h.inStep_of_same (hask.trans (k.run_error hrun _)) (hask'.trans (l.run_error hrun' _))
        (.refused (.unknownFile hs.id))
    | true =>
      rw [hstored'] at hfile
      obtain ⟨newFacts, newEdges, s, hrun, hs', hfacts, hedges, hids, hid⟩ :=
        MemoryStore.replaceFacts_done facts hcheck hfile (by rwa [List.length_map])
      obtain ⟨newFacts', newEdges', t, hrun', ht', hfacts', hedges', hids', hid'⟩ :=
        MemoryStore.replaceFacts_done facts hcheck' hstored' (by rwa [List.length_map])
      have hends := h.sameEnds hs hcheck hcheck' (fun e he => (hknown.2 e he).2) hedges hedges'
      rw [List.length_map] at hid hid'
      obtain ⟨ρ', hextends, hbelow, hnewFacts, hnewEdges⟩ :=
        h.exists_replaced hs hfacts hfacts' hends hids hids' (by omega) (by omega)
      have hk : k.ask (.replaceFacts n facts es) = (.ok .done, { k with store := s }) :=
        hask.trans (k.run_ok hrun _)
      have hl : l.ask (.replaceFacts n facts es) = (.ok .done, { l with store := t }) :=
        hask'.trans (l.run_ok hrun' _)
      refine ⟨?_, by rw [hk, hl]; simp only; omega⟩
      rw [hk, hl]
      refine ⟨ρ', hextends, .answered .done, ?_,
        h.returned.imp fun _ _ => SameFile.extend hextends.forAll, hbelow⟩
      simp only [hs', ht']
      exact (h.alike.extend hextends.forAll).replace (hextends _ _ hs.id) hnewFacts hnewEdges
  · have hrun := MemoryStore.replaceFacts_foreign k.store facts hbad
    have hrun' := MemoryStore.replaceFacts_foreign l.store facts hbad'
    exact h.inStep_of_same (hask.trans (k.run_error hrun _)) (hask'.trans (l.run_error hrun' _))
      (.refused hfailure)

end Replacing

/-! ### All calls -/

/-- A call that means the same to both clients gets the same answer from both. -/
theorem inStep (h : Matched ρ k l) (hk : k.Given) (hl : l.Given) (hknown : call.Known k)
    (hknown' : call.Known l) (hroom : k.store.lastId.toInt + call.records < Text.wordSize 63)
    (hroom' : l.store.lastId.toInt + call.records < Text.wordSize 63) : InStep ρ k l call := by
  cases call with
  | insertFiles new => exact h.insertFiles new hroom hroom'
  | replaceFacts n facts es => exact h.replaceFacts hk hl hknown hknown' hroom hroom'
  | factsOfFile file =>
    exact h.inStep_of_same rfl rfl (.answered (.facts (h.factsOfFile hk hl hknown hknown')))
  | files r => exact h.inStep_of_same rfl rfl (.answered (.files (h.alike.filesOf r)))
  | facts r => exact h.inStep_of_same rfl rfl (.answered (.facts (h.alike.factsOf r)))
  | edges r => exact h.inStep_of_same rfl rfl (.answered (.edges (h.alike.edgesOf r)))
  | repository r =>
    have hr : k.store.repositoryOf r = l.store.repositoryOf r := h.alike.repositoryOf r
    refine h.inStep_of_same rfl rfl ?_
    change SameOutcome ρ (.ok (.repository (k.store.repositoryOf r)))
      (.ok (.repository (l.store.repositoryOf r)))
    rw [hr]
    exact .answered (.repository _)
  | clearFiles r =>
    refine h.inStep_of_run rfl rfl ?_ (MemoryStore.removeFiles_alike h.alike r) rfl rfl
    change SameOutcome ρ (.ok (.count (k.store.contents.idsOf r).length))
      (.ok (.count (l.store.contents.idsOf r).length))
    rw [(h.alike.idsOf r).length_eq]
    exact .answered (.count _)
  | updateRepository r u =>
    obtain ⟨kept, s, t, hrun, hrun', halike, hs, ht⟩ :=
      MemoryStore.updateRepository_alike h.alike r u
    have hdone := k.run_ok hrun (fun r => .repository (some r))
    have hdone' := l.run_ok hrun' (fun r => .repository (some r))
    exact h.inStep_of_run hdone hdone' (.answered (.repository _)) halike hs ht
  | deleteRepository r =>
    obtain ⟨b, s, t, hrun, hrun', halike, hs, ht⟩ := MemoryStore.deleteRepository_alike h.alike r
    exact h.inStep_of_run (k.run_ok hrun .flag) (l.run_ok hrun' .flag) (.answered (.flag b)) halike
      hs ht

end Matched

end CodeSurvey
