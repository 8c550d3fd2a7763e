-- All stores give the same answers. A client makes the same calls on two
-- stores, and names files by where they stand among those that the store
-- returned to it; then one store answers just when the other one does, and all
-- answers are the same up to one renaming of the ids.
import CodeSurvey.Proofs.Store.Memory
import CodeSurvey.Proofs.Store.Relational
import CodeSurvey.Proofs.Store.Renaming

namespace CodeSurvey

/-! ## Calls -/

/-- How a call names a file: as one of those that the store returned, counted from zero, or by
a number. -/
inductive FileName where
  | returned (n : Nat)
  | number (id : Int64)
deriving DecidableEq, Repr

/-- An edge as a client gives it. The target is one of the files that the store returned. -/
structure EdgeCall where
  repository : String
  source : FileName
  target : Option Nat
  externalTarget : Option String
  kind : String
  specifier : String
  line : UInt32
deriving DecidableEq, Repr

/-- A call of a store. Facts are replaced for one of the files that the store returned. -/
inductive StoreCall where
  | insertFiles (files : List NewFile)
  | files (repository : String)
  | clearFiles (repository : String)
  | replaceFacts (file : Nat) (facts : List Fact) (edges : List EdgeCall)
  | factsOfFile (file : FileName)
  | facts (repository : String)
  | edges (repository : String)
  | updateRepository (id : String) (update : RepositoryUpdate)
  | repository (id : String)
  | deleteRepository (id : String)

/-- The number of records that the call stores. -/
def StoreCall.records : StoreCall → Nat
  | insertFiles new => new.length
  | replaceFacts _ xs es => xs.length + es.length
  | _ => 0

/-- What a store answers. -/
inductive StoreAnswer where
  | done
  | files (files : List StoredFile)
  | facts (facts : List StoredFact)
  | edges (edges : List StoredEdge)
  | repository (repository : Option Repository)
  | count (n : Nat)
  | flag (b : Bool)

/-! ## Clients -/

/-- A store and the files that it returned when they were stored, in order. Some of them may be
gone. -/
structure Client (σ : Type) where
  store : σ
  returned : List StoredFile

namespace Client

variable {σ τ : Type} [Storage σ] [Storage τ]

/-- The id under which the store knows a file. -/
def idOf (k : Client σ) : FileName → Int64
  | .returned n => ((k.returned[n]?).map (·.id)).getD 0
  | .number id => id

/-- The edge with the ids of the store. -/
def edge (k : Client σ) (e : EdgeCall) : Edge where
  repository := e.repository
  sourceFile := k.idOf e.source
  targetFile := e.target.map (fun n => k.idOf (.returned n))
  externalTarget := e.externalTarget
  kind := e.kind
  specifier := e.specifier
  line := e.line

/-- What comes of an operation on the store. -/
def run {α : Type} (k : Client σ) (c : Command σ α) (answer : α → StoreAnswer) :
    Except Failure StoreAnswer × Client σ :=
  let (r, s) := c k.store
  (answer <$> r, { k with store := s })

omit [Storage σ] in
theorem run_ok {α : Type} {x : Command σ α} {a : α} (k : Client σ) {s : σ}
    (h : x k.store = (.ok a, s)) (answer : α → StoreAnswer) :
    k.run x answer = (.ok (answer a), { k with store := s }) := by
  simp only [run, h]
  rfl

omit [Storage σ] in
theorem run_error {α : Type} {x : Command σ α} {e : Failure} (k : Client σ) {s : σ}
    (h : x k.store = (.error e, s)) (answer : α → StoreAnswer) :
    k.run x answer = (.error e, { k with store := s }) := by
  simp only [run, h]
  rfl

omit [Storage σ] in
theorem run_same {α : Type} {x : Command σ α} {a : α} (k : Client σ)
    (h : x k.store = (.ok a, k.store)) (answer : α → StoreAnswer) :
    k.run x answer = (.ok (answer a), k) :=
  k.run_ok h answer

/-- What comes of a call. A file that the store never returned is not handed to it. -/
def ask (k : Client σ) : StoreCall → Except Failure StoreAnswer × Client σ
  | .insertFiles new =>
    match Storage.insertFiles new k.store with
    | (.ok stored, s) => (.ok (.files stored), ⟨s, k.returned ++ stored⟩)
    | (.error e, s) => (.error e, ⟨s, k.returned⟩)
  | .files repository => k.run (Storage.files repository) .files
  | .clearFiles repository => k.run (Storage.clearFiles repository) .count
  | .replaceFacts n facts edges =>
    match k.returned[n]? with
    | some f =>
      k.run (Storage.replaceFacts f.id f.repository facts (edges.map k.edge)) (fun _ => .done)
    | none => (.ok .done, k)
  | .factsOfFile file => k.run (Storage.factsOfFile (k.idOf file)) .facts
  | .facts repository => k.run (Storage.facts repository) .facts
  | .edges repository => k.run (Storage.edges repository) .edges
  | .updateRepository id u => k.run (Storage.updateRepository id u) (fun r => .repository (some r))
  | .repository id => k.run (Storage.repository id) .repository
  | .deleteRepository id => k.run (Storage.deleteRepository id) .flag

/-- What comes of one call after the other. -/
def answers (k : Client σ) : List StoreCall → List (Except Failure StoreAnswer)
  | [] => []
  | call :: rest => (k.ask call).1 :: (k.ask call).2.answers rest

/-- The file at the place among those returned is still stored. -/
def Stores (k : Client σ) (n : Nat) : Prop :=
  ∃ f fs, k.returned[n]? = some f ∧ (Storage.files f.repository k.store).1 = .ok fs ∧ f ∈ fs

end Client

section Proper

variable {σ τ : Type} [Storage σ] [Storage τ]

/-- The name means the same to both clients: a file that was returned to each, or a number that
was given to no file of either. -/
def FileName.Proper (k : Client σ) (l : Client τ) : FileName → Prop
  | returned n => n < k.returned.length
  | number id => (∀ f ∈ k.returned, f.id ≠ id) ∧ ∀ f ∈ l.returned, f.id ≠ id

/-- The call can be made by both clients: files and updates fit the columns of a database, facts
are replaced for a file that was returned, and the target of an edge, if it has one, is stored. -/
def StoreCall.Proper (k : Client σ) (l : Client τ) : StoreCall → Prop
  | insertFiles new => ∀ f ∈ new, f.Fits
  | replaceFacts n _ es =>
    n < k.returned.length ∧ ∀ e ∈ es, e.source.Proper k l ∧ ∀ t ∈ e.target, k.Stores t
  | factsOfFile file => file.Proper k l
  | updateRepository _ u => u.Fits
  | _ => True

/-- Each call can be made by both clients when its turn comes. -/
def ProperCalls (k : Client σ) (l : Client τ) : List StoreCall → Prop
  | [] => True
  | call :: rest => call.Proper k l ∧ ProperCalls (k.ask call).2 (l.ask call).2 rest

end Proper

/-! ## Answers -/

/-- The answers are the same up to the ids. -/
inductive SameAnswer (ρ : Renamings) : StoreAnswer → StoreAnswer → Prop
  | done : SameAnswer ρ .done .done
  | files {fs gs : List StoredFile} :
      List.Forall₂ (SameFile ρ) fs gs → SameAnswer ρ (.files fs) (.files gs)
  | facts {xs ys : List StoredFact} :
      List.Forall₂ (SameFact ρ) xs ys → SameAnswer ρ (.facts xs) (.facts ys)
  | edges {es gs : List StoredEdge} :
      List.Forall₂ (SameEdge ρ) es gs → SameAnswer ρ (.edges es) (.edges gs)
  | repository (r : Option Repository) : SameAnswer ρ (.repository r) (.repository r)
  | count (n : Nat) : SameAnswer ρ (.count n) (.count n)
  | flag (b : Bool) : SameAnswer ρ (.flag b) (.flag b)

theorem SameAnswer.extend {ρ ρ' : Renamings} (he : ρ'.Extends ρ) {a b : StoreAnswer}
    (h : SameAnswer ρ a b) : SameAnswer ρ' a b := by
  cases h with
  | done => exact .done
  | files h => exact .files (h.imp fun _ _ => SameFile.extend he)
  | facts h => exact .facts (h.imp fun _ _ => SameFact.extend he)
  | edges h => exact .edges (h.imp fun _ _ => SameEdge.extend he)
  | repository r => exact .repository r
  | count n => exact .count n
  | flag b => exact .flag b

/-- Both stores refuse, or both give the same answer up to the ids. -/
inductive Agree (ρ : Renamings) : Except Failure StoreAnswer → Except Failure StoreAnswer → Prop
  | refused (e e' : Failure) : Agree ρ (.error e) (.error e')
  | answered {a b : StoreAnswer} : SameAnswer ρ a b → Agree ρ (.ok a) (.ok b)

theorem Agree.extend {ρ ρ' : Renamings} (he : ρ'.Extends ρ) {a b : Except Failure StoreAnswer}
    (h : Agree ρ a b) : Agree ρ' a b := by
  cases h with
  | refused e e' => exact .refused e e'
  | answered h => exact .answered (h.extend he)

/-! ## What holds between the clients -/

section Simulation

variable {σ τ : Type} [Storage σ] [Storage τ] [LawfulStorage σ] [LawfulStorage τ]

open LawfulStorage

/-- The client's store holds the contents, and each of their files was returned. -/
structure Client.Holds (k : Client σ) (c : Contents) : Prop where
  keeps : Keeps k.store c
  whole : c.Whole
  fits : ∀ r ∈ c.repositories, r.Fits
  returned : ∀ f ∈ c.files, f ∈ k.returned
  distinct : (k.returned.map (·.id)).Nodup

/-- The stores hold the same up to the renaming, and returned the same files. -/
structure Paired (ρ : Renamings) (k : Client σ) (l : Client τ) (c c' : Contents) : Prop where
  left : k.Holds c
  right : l.Holds c'
  alike : Alike ρ c c'
  returned : List.Forall₂ (SameFile ρ) k.returned l.returned
  below : ρ.Below (last k.store) (last l.store)

/-- After a call the answers agree, the clients are paired again, and no more ids were given out
than there are records in the call. -/
structure Stepped (ρ : Renamings) (k : Client σ) (l : Client τ) (call : StoreCall) : Prop where
  paired : ∃ ρ' c c', ρ'.Extends ρ ∧ Agree ρ' (k.ask call).1 (l.ask call).1 ∧
    Paired ρ' (k.ask call).2 (l.ask call).2 c c'
  left : (last k.store).Counts call.records (last (k.ask call).2.store)
  right : (last l.store).Counts call.records (last (l.ask call).2.store)

variable {ρ : Renamings} {k : Client σ} {l : Client τ} {c c' : Contents}

/-! ### Calls that change nothing -/

/-- A question is answered by both stores, or refused by both, and they stay as they are. -/
theorem Paired.stepped_of_same (h : Paired ρ k l c c') {call : StoreCall}
    {a b : Except Failure StoreAnswer} (hk : k.ask call = (a, k)) (hl : l.ask call = (b, l))
    (hab : Agree ρ a b) : Stepped ρ k l call where
  paired := by
    rw [hk, hl]
    exact ⟨ρ, c, c', .refl ρ, hab, h⟩
  left := by
    rw [hk]
    exact (LastIds.Counts.refl _).mono (Nat.zero_le _)
  right := by
    rw [hl]
    exact (LastIds.Counts.refl _).mono (Nat.zero_le _)

theorem files_stepped (h : Paired ρ k l c c') (repository : String) :
    Stepped ρ k l (.files repository) :=
  h.stepped_of_same (k.run_same (LawfulStorage.files repository h.left.keeps) _)
    (l.run_same (LawfulStorage.files repository h.right.keeps) _)
    (.answered (.files (h.alike.filesOf repository)))

theorem facts_stepped (h : Paired ρ k l c c') (repository : String) :
    Stepped ρ k l (.facts repository) :=
  h.stepped_of_same (k.run_same (LawfulStorage.facts repository h.left.keeps) _)
    (l.run_same (LawfulStorage.facts repository h.right.keeps) _)
    (.answered (.facts (h.alike.factsOf repository)))

theorem edges_stepped (h : Paired ρ k l c c') (repository : String) :
    Stepped ρ k l (.edges repository) :=
  h.stepped_of_same (k.run_same (LawfulStorage.edges repository h.left.keeps) _)
    (l.run_same (LawfulStorage.edges repository h.right.keeps) _)
    (.answered (.edges (h.alike.edgesOf repository)))

theorem repository_stepped (h : Paired ρ k l c c') (id : String) :
    Stepped ρ k l (.repository id) := by
  refine h.stepped_of_same (k.run_same (LawfulStorage.repository id h.left.keeps) _)
    (l.run_same (LawfulStorage.repository id h.right.keeps) _) ?_
  rw [h.alike.repositoryOf]
  exact .answered (.repository _)

/-- A returned file has ids that stand for each other. -/
theorem Paired.idOf_returned (h : Paired ρ k l c c') {n : Nat} (hn : n < k.returned.length) :
    ρ.files.Sends (k.idOf (.returned n)) (l.idOf (.returned n)) := by
  have hf := List.getElem?_eq_getElem hn
  obtain ⟨g, hg, hs⟩ := exists_of_getElem?_left h.returned hf
  simp only [Client.idOf, hf, hg, Option.map_some, Option.getD_some]
  exact hs.id

/-- No file has a number that was given to none. -/
theorem Client.Holds.factsOfFile_eq_nil {k : Client σ} {c : Contents} (h : k.Holds c) {id : Int64}
    (hid : ∀ f ∈ k.returned, f.id ≠ id) : c.factsOfFile id = [] := by
  refine List.filter_eq_nil_iff.2 fun x hx heq => ?_
  obtain ⟨f, hf, hfile, -⟩ := h.whole.fact x hx
  exact hid f (h.returned f hf) (hfile.trans (beq_iff_eq.1 heq))

theorem factsOfFile_stepped (h : Paired ρ k l c c') {file : FileName} (hp : file.Proper k l) :
    Stepped ρ k l (.factsOfFile file) := by
  refine h.stepped_of_same (k.run_same (LawfulStorage.factsOfFile _ h.left.keeps) _)
    (l.run_same (LawfulStorage.factsOfFile _ h.right.keeps) _) (.answered (.facts ?_))
  cases file with
  | returned n => exact h.alike.factsOfFile (h.idOf_returned hp)
  | number id =>
    simp only [Client.idOf]
    rw [h.left.factsOfFile_eq_nil hp.1, h.right.factsOfFile_eq_nil hp.2]
    exact .nil

/-! ### Calls that take away -/

theorem clearFiles_stepped (h : Paired ρ k l c c') (repository : String) :
    Stepped ρ k l (.clearFiles repository) := by
  obtain ⟨s, hrun, hcounts, hkeeps⟩ :=
    LawfulStorage.clearFiles repository h.left.keeps h.left.whole
  obtain ⟨t, hrun', hcounts', hkeeps'⟩ :=
    LawfulStorage.clearFiles repository h.right.keeps h.right.whole
  have hk : k.ask (.clearFiles repository) =
      (.ok (.count (c.filesOf repository).length), { k with store := s }) :=
    k.run_ok hrun .count
  have hl : l.ask (.clearFiles repository) =
      (.ok (.count (c'.filesOf repository).length), { l with store := t }) :=
    l.run_ok hrun' .count
  refine ⟨?_, by rw [hk]; exact hcounts, by rw [hl]; exact hcounts'⟩
  rw [hk, hl]
  refine ⟨ρ, c.clear repository, c'.clear repository, .refl ρ, ?_, ?_, ?_, h.alike.clear repository,
    h.returned, h.below.counts hcounts hcounts'⟩
  · rw [(h.alike.filesOf repository).length_eq]
    exact .answered (.count _)
  · exact ⟨hkeeps, h.left.whole.clear repository, h.left.fits,
      fun f hf => h.left.returned f (List.mem_filter.1 hf).1, h.left.distinct⟩
  · exact ⟨hkeeps', h.right.whole.clear repository, h.right.fits,
      fun f hf => h.right.returned f (List.mem_filter.1 hf).1, h.right.distinct⟩

theorem deleteRepository_stepped (h : Paired ρ k l c c') (id : String) :
    Stepped ρ k l (.deleteRepository id) := by
  obtain ⟨s, hrun, hcounts, hkeeps⟩ :=
    LawfulStorage.deleteRepository id h.left.keeps h.left.whole
  obtain ⟨t, hrun', hcounts', hkeeps'⟩ :=
    LawfulStorage.deleteRepository id h.right.keeps h.right.whole
  have hk : k.ask (.deleteRepository id) = (.ok (.flag (c.knows id)), { k with store := s }) :=
    k.run_ok hrun .flag
  have hl : l.ask (.deleteRepository id) = (.ok (.flag (c'.knows id)), { l with store := t }) :=
    l.run_ok hrun' .flag
  refine ⟨?_, by rw [hk]; exact hcounts, by rw [hl]; exact hcounts'⟩
  rw [hk, hl]
  refine ⟨ρ, c.delete id, c'.delete id, .refl ρ, ?_, ?_, ?_, h.alike.delete id, h.returned,
    h.below.counts hcounts hcounts'⟩
  · rw [h.alike.knows]
    exact .answered (.flag _)
  · exact ⟨hkeeps, h.left.whole.delete id, fun r hr => h.left.fits r (List.mem_filter.1 hr).1,
      fun f hf => h.left.returned f (List.mem_filter.1 hf).1, h.left.distinct⟩
  · exact ⟨hkeeps', h.right.whole.delete id, fun r hr => h.right.fits r (List.mem_filter.1 hr).1,
      fun f hf => h.right.returned f (List.mem_filter.1 hf).1, h.right.distinct⟩

/-! ### Calls that write repositories -/

theorem Client.Holds.updated_fits {k : Client σ} {c : Contents} (h : k.Holds c) (id : String)
    {u : RepositoryUpdate} (hu : u.Fits) : (c.updated id u).Fits := by
  refine Repository.Fits.apply ?_ hu
  cases hr : c.repositoryOf id with
  | none => exact Repository.fits_fresh id
  | some r => exact h.fits r (List.mem_of_find?_eq_some hr)

theorem mem_putRepository {c : Contents} {r o : Repository}
    (h : o ∈ (c.putRepository r).repositories) : o = r ∨ o ∈ c.repositories := by
  simp only [Contents.putRepository] at h
  split at h
  · obtain ⟨o', ho', heq⟩ := List.mem_map.1 h
    split at heq
    · exact .inl heq.symm
    · exact .inr (heq ▸ ho')
  · rcases List.mem_append.1 h with h | h
    · exact .inr h
    · exact .inl (List.mem_singleton.1 h)

theorem Client.Holds.putRepository {k : Client σ} {c : Contents} (h : k.Holds c) {s : σ}
    {r : Repository} (hr : r.Fits) (hkeeps : Keeps s (c.putRepository r)) :
    Client.Holds { k with store := s } (c.putRepository r) := by
  refine ⟨hkeeps, h.whole.putRepository r, fun o ho => ?_, h.returned, h.distinct⟩
  rcases mem_putRepository ho with rfl | ho
  · exact hr
  · exact h.fits o ho

theorem updateRepository_stepped (h : Paired ρ k l c c') (id : String) {u : RepositoryUpdate}
    (hu : u.Fits) : Stepped ρ k l (.updateRepository id u) := by
  obtain ⟨kept, s, hrun, -, hfits, hcounts, hkeeps⟩ :=
    LawfulStorage.updateRepository id u h.left.keeps
  obtain ⟨kept', t, hrun', -, hfits', hcounts', hkeeps'⟩ :=
    LawfulStorage.updateRepository id u h.right.keeps
  have hr := h.left.updated_fits id hu
  have hr' := h.right.updated_fits id hu
  obtain rfl := hfits hr
  obtain rfl := hfits' hr'
  have hk : k.ask (.updateRepository id u) =
      (.ok (.repository (some (c.updated id u))), { k with store := s }) :=
    k.run_ok hrun (fun r => .repository (some r))
  have hl : l.ask (.updateRepository id u) =
      (.ok (.repository (some (c'.updated id u))), { l with store := t }) :=
    l.run_ok hrun' (fun r => .repository (some r))
  refine ⟨?_, by rw [hk]; exact hcounts, by rw [hl]; exact hcounts'⟩
  rw [hk, hl]
  refine ⟨ρ, _, _, .refl ρ, ?_, h.left.putRepository hr hkeeps, h.right.putRepository hr' hkeeps',
    ?_, h.returned, h.below.counts hcounts hcounts'⟩
  · rw [h.alike.updated]
    exact .answered (.repository _)
  · rw [h.alike.updated]
    exact h.alike.putRepository _

/-! ### Calls that store files -/

/-- No id of a returned file is beyond those that were given out. -/
theorem Paired.returned_le (h : Paired ρ k l c c') :
    (∀ f ∈ k.returned, f.id ≤ last k.store .file) ∧
      ∀ g ∈ l.returned, g.id ≤ last l.store .file := by
  constructor
  · intro f hf
    obtain ⟨g, -, hs⟩ := exists_of_mem_left h.returned hf
    exact (h.below.files _ hs.id).1
  · intro g hg
    obtain ⟨f, -, hs⟩ := exists_of_mem_left h.returned.flip hg
    exact (h.below.files _ hs.id).2

/-- New files have ids of their own. -/
theorem Client.Holds.addFiles {k : Client σ} {c : Contents} (h : k.Holds c)
    (hle : ∀ f ∈ k.returned, f.id ≤ last k.store .file) {s : σ} {new : List NewFile}
    {stored : List StoredFile} (hadmits : c.Admits new) (hnew : stored.map (·.toNewFile) = new)
    (hids : Numbered (last k.store .file) (last s .file) (stored.map (·.id)))
    (hkeeps : Keeps s (c.addFiles stored)) :
    Client.Holds ⟨s, k.returned ++ stored⟩ (c.addFiles stored) := by
  have hother : ∀ f ∈ stored, ∀ g ∈ k.returned, f.id ≠ g.id :=
    fun f hf g hg => hids.ne_of_le (List.mem_map_of_mem hf) (hle g hg)
  refine ⟨hkeeps, ?_, h.fits, ?_, ?_⟩
  · exact h.whole.addFiles hids.nodup (fun f hf g hg => hother f hf g (h.returned g hg))
      (hadmits.known_stored hnew)
  · intro f hf
    rcases List.mem_append.1 hf with hf | hf
    · exact List.mem_append_left _ (h.returned f hf)
    · exact List.mem_append_right _ hf
  · simp only [List.map_append]
    refine List.nodup_append.2 ⟨h.distinct, hids.nodup, ?_⟩
    intro i hi j hj hij
    obtain ⟨g, hg, rfl⟩ := List.mem_map.1 hi
    obtain ⟨f, hf, rfl⟩ := List.mem_map.1 hj
    exact hother f hf g hg hij.symm

theorem insertFiles_stepped (h : Paired ρ k l c c') {new : List NewFile}
    (hfits : ∀ f ∈ new, f.Fits) (hroom : (last k.store).Room new.length)
    (hroom' : (last l.store).Room new.length) : Stepped ρ k l (.insertFiles new) := by
  by_cases hadmits : c.Admits new
  · have hadmits' := (h.alike.admits new).1 hadmits
    obtain ⟨stored, s, hrun, hnew, hids, hcounts, hkeeps⟩ :=
      insertFiles_ok h.left.keeps hadmits hfits hroom
    obtain ⟨stored', t, hrun', hnew', hids', hcounts', hkeeps'⟩ :=
      insertFiles_ok h.right.keeps hadmits' hfits hroom'
    have hk : k.ask (.insertFiles new) = (.ok (.files stored), ⟨s, k.returned ++ stored⟩) := by
      simp only [Client.ask, hrun]
    have hl : l.ask (.insertFiles new) = (.ok (.files stored'), ⟨t, l.returned ++ stored'⟩) := by
      simp only [Client.ask, hrun']
    have hsame := forall₂_of_map_eq (hnew.trans hnew'.symm)
    obtain ⟨files, hext, hbelow, hsends⟩ := ρ.files.exists_extension h.below.files hids hids'
      (by simpa using hsame.length_eq) (hcounts .file).1 (hcounts' .file).1
    have hextends : Renamings.Extends { ρ with files := files } ρ := ⟨hext, .refl _, .refl _⟩
    have hstored : List.Forall₂ (SameFile { ρ with files := files }) stored stored' := by
      rw [List.forall₂_map_left_iff, List.forall₂_map_right_iff] at hsends
      exact hsends.mp (fun f g hid hfile => ⟨hid, hfile⟩) hsame
    refine ⟨?_, by rw [hk]; exact hcounts, by rw [hl]; exact hcounts'⟩
    rw [hk, hl]
    have hrest := h.below.counts hcounts hcounts'
    exact ⟨_, _, _, hextends, .answered (.files hstored),
      h.left.addFiles h.returned_le.1 hadmits hnew hids hkeeps,
      h.right.addFiles h.returned_le.2 hadmits' hnew' hids' hkeeps',
      (h.alike.extend hextends).addFiles hstored,
      List.rel_append (h.returned.imp fun _ _ => SameFile.extend hextends) hstored,
      ⟨hbelow, hrest.facts, hrest.edges⟩⟩
  · have hadmits' : ¬ c'.Admits new := fun ha => hadmits ((h.alike.admits new).2 ha)
    obtain ⟨e, hrun⟩ := insertFiles_refused h.left.keeps hadmits hfits hroom
    obtain ⟨e', hrun'⟩ := insertFiles_refused h.right.keeps hadmits' hfits hroom'
    exact h.stepped_of_same (by simp only [Client.ask, hrun]) (by simp only [Client.ask, hrun'])
      (.refused e e')

/-! ### Calls that replace facts -/

/-- A returned file that is stored by its id is stored as it was returned. -/
theorem Client.Holds.mem_files {k : Client σ} {c : Contents} (h : k.Holds c) {f : StoredFile}
    (hf : f ∈ k.returned) (hid : c.hasFile f.id = true) : f ∈ c.files := by
  obtain ⟨g, hg, heq⟩ := Contents.hasFile_iff.1 hid
  rwa [← List.inj_on_of_nodup_map h.distinct (h.returned g hg) hf heq]

/-- A file that is stored has a place among those returned, and its id is stored. -/
theorem Client.Holds.hasFile_of_stores {k : Client σ} {c : Contents} (h : k.Holds c) {n : Nat}
    (hn : k.Stores n) : n < k.returned.length ∧ c.hasFile (k.idOf (.returned n)) = true := by
  obtain ⟨f, fs, hget, hfiles, hf⟩ := hn
  rw [LawfulStorage.files f.repository h.keeps] at hfiles
  simp only [Except.ok.injEq] at hfiles
  rw [← hfiles] at hf
  refine ⟨(List.getElem?_eq_some_iff.1 hget).1, ?_⟩
  simp only [Client.idOf, hget, Option.map_some, Option.getD_some]
  exact Contents.hasFile_iff.2 ⟨f, (List.mem_filter.1 hf).1, rfl⟩

/-- Both clients name the returned file by a name, or neither does. -/
theorem Paired.idOf_eq_iff (h : Paired ρ k l c c') {file : FileName} (hp : file.Proper k l)
    {f g : StoredFile} (hf : f ∈ k.returned) (hg : g ∈ l.returned) (hs : SameFile ρ f g) :
    k.idOf file = f.id ↔ l.idOf file = g.id := by
  cases file with
  | returned n => exact (h.idOf_returned hp).eq_iff hs.id
  | number id =>
    simp only [Client.idOf]
    exact ⟨fun heq => absurd heq.symm (hp.1 f hf), fun heq => absurd heq.symm (hp.2 g hg)⟩

/-- The edges of a call are the same for both clients when they start at one file. -/
theorem Paired.sameEnds (h : Paired ρ k l c c') {e : EdgeCall}
    (hsource : ρ.files.Sends (k.idOf e.source) (l.idOf e.source))
    (htarget : ∀ t ∈ e.target, k.Stores t) : SameEnds ρ (k.edge e) (l.edge e) := by
  refine ⟨rfl, hsource, ?_, rfl, rfl, rfl, rfl⟩
  simp only [Client.edge]
  cases ht : e.target with
  | none => exact .none
  | some n => exact .some (h.idOf_returned (h.left.hasFile_of_stores (htarget n ht)).1)

theorem Client.Holds.replace {k : Client σ} {c : Contents} (h : k.Holds c) {s : σ}
    {f : StoredFile} (hf : f ∈ c.files) {facts : List Fact} {edges : List Edge}
    (hcheck : checkEdges f.id f.repository edges = .ok ())
    (htarget : ∀ e ∈ edges, ∀ t ∈ e.targetFile, c.hasFile t = true)
    {newFacts : List StoredFact} {newEdges : List StoredEdge}
    (hfacts : newFacts.map (fun x => (x.file, x.repository, x.fact)) =
      facts.map (fun a => (f.id, f.repository, a)))
    (hedges : newEdges.map (·.toEdge) = edges)
    (hkeeps : Keeps s (c.replace f.id newFacts newEdges)) :
    Client.Holds { k with store := s } (c.replace f.id newFacts newEdges) := by
  have hmem : ∀ e ∈ newEdges, e.toEdge ∈ edges := fun e he => hedges ▸ List.mem_map_of_mem he
  refine ⟨hkeeps, h.whole.replace hf (hang_of_map_eq hfacts).2 ?_ ?_, h.fits, h.returned,
    h.distinct⟩
  · exact fun e he => checkEdges_iff.1 hcheck e.toEdge (hmem e he)
  · exact fun e he => htarget e.toEdge (hmem e he)

theorem replaceFacts_stepped (h : Paired ρ k l c c') {n : Nat} {facts : List Fact}
    {es : List EdgeCall} (hp : (StoreCall.replaceFacts n facts es).Proper k l)
    (hroom : (last k.store).Room (facts.length + es.length))
    (hroom' : (last l.store).Room (facts.length + es.length)) :
    Stepped ρ k l (.replaceFacts n facts es) := by
  obtain ⟨hn, hes⟩ := hp
  have hget := List.getElem?_eq_getElem hn
  have hf := List.getElem_mem hn
  generalize k.returned[n] = f at hget hf
  obtain ⟨g, hget', hs⟩ := exists_of_getElem?_left h.returned hget
  have hg := List.mem_of_getElem? hget'
  -- the check of the edges and the search for the file come out the same
  have hcheck : checkEdges f.id f.repository (es.map k.edge) = .ok () ↔
      checkEdges g.id g.repository (es.map l.edge) = .ok () := by
    have hrepository : f.repository = g.repository := by rw [hs.file]
    simp only [checkEdges_iff, List.forall_mem_map]
    refine forall₂_congr fun e he => and_congr (h.idOf_eq_iff (hes e he).1 hf hg hs) ?_
    rw [hrepository]
    rfl
  have hfile := h.alike.hasFile hs.id
  have hk : k.ask (.replaceFacts n facts es) =
      k.run (Storage.replaceFacts f.id f.repository facts (es.map k.edge)) (fun _ => .done) := by
    simp only [Client.ask, hget]
  have hl : l.ask (.replaceFacts n facts es) =
      l.run (Storage.replaceFacts g.id g.repository facts (es.map l.edge)) (fun _ => .done) := by
    simp only [Client.ask, hget']
  by_cases hgood : checkEdges f.id f.repository (es.map k.edge) = .ok () ∧ c.hasFile f.id = true
  · obtain ⟨hok, hin⟩ := hgood
    have hok' := hcheck.1 hok
    have hmem := h.left.mem_files hf hin
    have hmem' := h.right.mem_files hg (hfile ▸ hin)
    have htarget : ∀ e ∈ es.map k.edge, ∀ t ∈ e.targetFile, c.hasFile t = true := by
      simp only [List.forall_mem_map, Client.edge, Option.mem_def, Option.map_eq_some_iff]
      rintro e he _ ⟨t, ht, rfl⟩
      exact (h.left.hasFile_of_stores ((hes e he).2 t ht)).2
    have htarget' : ∀ e ∈ es.map l.edge, ∀ t ∈ e.targetFile, c'.hasFile t = true := by
      simp only [List.forall_mem_map, Client.edge, Option.mem_def, Option.map_eq_some_iff]
      rintro e he _ ⟨t, ht, rfl⟩
      obtain ⟨hlt, hthere⟩ := h.left.hasFile_of_stores ((hes e he).2 t ht)
      rwa [← h.alike.hasFile (h.idOf_returned hlt)]
    have hspace : (last k.store).Room (facts.length + (es.map k.edge).length) := by
      simpa using hroom
    have hspace' : (last l.store).Room (facts.length + (es.map l.edge).length) := by
      simpa using hroom'
    obtain ⟨newFacts, newEdges, s, hrun, hnewFacts, hnewEdges, hfactIds, hedgeIds, hcounts,
      hkeeps⟩ := replaceFacts_ok h.left.keeps h.left.whole hmem hok htarget hspace
    obtain ⟨newFacts', newEdges', t, hrun', hnewFacts', hnewEdges', hfactIds', hedgeIds', hcounts',
      hkeeps'⟩ := replaceFacts_ok h.right.keeps h.right.whole hmem' hok' htarget' hspace'
    rw [List.length_map] at hcounts hcounts'
    have hanswer : k.ask (.replaceFacts n facts es) = (.ok .done, { k with store := s }) :=
      hk.trans (k.run_ok hrun _)
    have hanswer' : l.ask (.replaceFacts n facts es) = (.ok .done, { l with store := t }) :=
      hl.trans (l.run_ok hrun' _)
    -- the new edges come from one list of edges, so they are the same pair by pair
    have hends : List.Forall₂ (fun e e' => SameEnds ρ e.toEdge e'.toEdge) newEdges newEdges' := by
      have hmap :
          List.Forall₂ (SameEnds ρ) (newEdges.map (·.toEdge)) (newEdges'.map (·.toEdge)) := by
        rw [hnewEdges, hnewEdges', List.forall₂_map_left_iff, List.forall₂_map_right_iff,
          List.forall₂_same]
        intro e he
        have hsource := (checkEdges_iff.1 hok (k.edge e) (List.mem_map_of_mem he)).1
        have hsource' := (checkEdges_iff.1 hok' (l.edge e) (List.mem_map_of_mem he)).1
        refine h.sameEnds ?_ (hes e he).2
        simp only [Client.edge] at hsource hsource'
        rw [hsource, hsource']
        exact hs.id
      rwa [List.forall₂_map_left_iff, List.forall₂_map_right_iff] at hmap
    have hnewFacts'' : newFacts'.map (fun x => (x.file, x.repository, x.fact)) =
        facts.map (fun a => (g.id, f.repository, a)) := by
      rw [hnewFacts', hs.file]
    obtain ⟨ρ', hextends, hbelow, hfacts, hedges⟩ := exists_paired_records h.below hcounts hcounts'
      hs.id hnewFacts hnewFacts'' hfactIds hfactIds' hends hedgeIds hedgeIds'
    refine ⟨?_, by rw [hanswer]; exact hcounts, by rw [hanswer']; exact hcounts'⟩
    rw [hanswer, hanswer']
    exact ⟨ρ', _, _, hextends, .answered .done,
      h.left.replace hmem hok htarget hnewFacts hnewEdges hkeeps,
      h.right.replace hmem' hok' htarget' hnewFacts' hnewEdges' hkeeps',
      (h.alike.extend hextends).replace (hextends.files _ _ hs.id) hfacts hedges,
      h.returned.imp fun _ _ => SameFile.extend hextends, hbelow⟩
  · have hbad : checkEdges f.id f.repository (es.map k.edge) ≠ .ok () ∨ c.hasFile f.id = false := by
      rw [← Bool.not_eq_true]
      exact not_and_or.1 hgood
    have hbad' : checkEdges g.id g.repository (es.map l.edge) ≠ .ok () ∨
        c'.hasFile g.id = false := by
      rwa [← hfile, ne_eq, ← hcheck]
    obtain ⟨e, hrun⟩ := replaceFacts_refused facts h.left.keeps hbad
    obtain ⟨e', hrun'⟩ := replaceFacts_refused facts h.right.keeps hbad'
    exact h.stepped_of_same (hk.trans (k.run_error hrun _)) (hl.trans (l.run_error hrun' _))
      (.refused e e')

/-! ## Runs -/

/-- Each call leaves the clients paired, with answers that agree. -/
theorem Paired.stepped (h : Paired ρ k l c c') {call : StoreCall} (hp : call.Proper k l)
    (hroom : (last k.store).Room call.records) (hroom' : (last l.store).Room call.records) :
    Stepped ρ k l call := by
  cases call with
  | insertFiles new => exact insertFiles_stepped h hp hroom hroom'
  | files repository => exact files_stepped h repository
  | clearFiles repository => exact clearFiles_stepped h repository
  | replaceFacts n xs es => exact replaceFacts_stepped h hp hroom hroom'
  | factsOfFile file => exact factsOfFile_stepped h hp
  | facts repository => exact facts_stepped h repository
  | edges repository => exact edges_stepped h repository
  | updateRepository id u => exact updateRepository_stepped h id hp
  | repository id => exact repository_stepped h id
  | deleteRepository id => exact deleteRepository_stepped h id

/-- The answers of a run agree under one renaming. -/
theorem Paired.answers_agree (h : Paired ρ k l c c') (calls : List StoreCall)
    (hp : ProperCalls k l calls) (hroom : (last k.store).Room (calls.map StoreCall.records).sum)
    (hroom' : (last l.store).Room (calls.map StoreCall.records).sum) :
    ∃ ρ' : Renamings, ρ'.Extends ρ ∧
      List.Forall₂ (Agree ρ') (k.answers calls) (l.answers calls) := by
  induction calls generalizing ρ k l c c' with
  | nil => exact ⟨ρ, .refl ρ, .nil⟩
  | cons call rest ih =>
    rw [List.map_cons, List.sum_cons] at hroom hroom'
    obtain ⟨hcall, hrest⟩ := hp
    obtain ⟨⟨ρ₁, c₁, c₁', hext₁, hagree, hpaired⟩, hcounts, hcounts'⟩ :=
      h.stepped hcall (hroom.mono (Nat.le_add_right _ _)) (hroom'.mono (Nat.le_add_right _ _))
    -- what the first answers agree under is extended by the rest of the run
    obtain ⟨ρ₂, hext₂, hagrees⟩ :=
      ih hpaired hrest (hroom.after hcounts) (hroom'.after hcounts')
    exact ⟨ρ₂, hext₂.trans hext₁, .cons (hagree.extend hext₂) hagrees⟩

end Simulation

/-- A client of a store that returned nothing yet. -/
def Client.of {σ : Type} (s : σ) : Client σ := ⟨s, []⟩

/-- A store in memory and a database, both without records, answer alike whatever is called: each
call succeeds on the one just when it does on the other, and all answers are the same, in the same
order, up to one renaming of the ids of each kind that keeps their order. Both must have ids for
all records of the calls. -/
theorem memory_and_database_agree (calls : List StoreCall)
    (hp : ProperCalls (Client.of MemoryStore.empty) (Client.of Relational.Database.fresh) calls)
    (hroom : (calls.map StoreCall.records).sum < Text.wordSize 63) :
    ∃ ρ : Renamings, List.Forall₂ (Agree ρ) ((Client.of MemoryStore.empty).answers calls)
      ((Client.of Relational.Database.fresh).answers calls) := by
  have hleft : (Client.of MemoryStore.empty).Holds .empty :=
    ⟨MemoryStore.keeps_empty, Contents.whole_empty, by simp [Contents.empty],
      by simp [Contents.empty], List.nodup_nil⟩
  have hright : (Client.of Relational.Database.fresh).Holds .empty :=
    ⟨Relational.Database.keeps_fresh, Contents.whole_empty, by simp [Contents.empty],
      by simp [Contents.empty], List.nodup_nil⟩
  have hpaired : Paired .empty (Client.of MemoryStore.empty) (Client.of Relational.Database.fresh)
      .empty .empty :=
    ⟨hleft, hright, .empty _, .nil, Renamings.below_empty _ _⟩
  have hzero : ∀ l : LastIds, (∀ k, l k = 0) → l.Room (calls.map StoreCall.records).sum := by
    intro l hl k
    rw [hl k, Int64.toInt_zero]
    omega
  obtain ⟨ρ, -, hagrees⟩ := hpaired.answers_agree calls hp (hzero _ fun _ => rfl)
    (hzero _ fun k => by cases k <;> rfl)
  exact ⟨ρ, hagrees⟩

/-- A small file at a path. -/
def sampleFile (path : String) : NewFile :=
  ⟨"r", path, path, "py", some "python", 3, some "x=1", none⟩

/-- A repository is made, two files are stored, the facts of the one are replaced and lead to the
other, and all is removed again. -/
def sampleCalls : List StoreCall :=
  [.updateRepository "r" (.toStatus .processing),
    .insertFiles [sampleFile "a.py", sampleFile "b.py"],
    .replaceFacts 0 [.bare "f" .function 1 1] [⟨"r", .returned 0, some 1, none, "import", ".b", 1⟩],
    .factsOfFile (.returned 0), .clearFiles "r", .replaceFacts 0 [] []]

theorem memory_and_database_agree_on_sample :
    ProperCalls (Client.of MemoryStore.empty) (Client.of Relational.Database.fresh) sampleCalls ∧
      (sampleCalls.map StoreCall.records).sum < Text.wordSize 63 ∧
      ∃ ρ : Renamings, List.Forall₂ (Agree ρ) ((Client.of MemoryStore.empty).answers sampleCalls)
        ((Client.of Relational.Database.fresh).answers sampleCalls) := by
  have hupdate : (RepositoryUpdate.toStatus .processing).Fits :=
    ⟨by simp [RepositoryUpdate.toStatus, RepositoryUpdate.empty],
      by simp [RepositoryUpdate.toStatus, RepositoryUpdate.empty],
      by simp [RepositoryUpdate.toStatus, RepositoryUpdate.empty]⟩
  have hfile : ∀ f ∈ [sampleFile "a.py", sampleFile "b.py"], f.Fits := by
    have hsize : FitsColumn 3 := by decide
    simpa [NewFile.Fits, sampleFile] using hsize
  have hproper : ProperCalls (Client.of MemoryStore.empty) (Client.of Relational.Database.fresh)
      sampleCalls := by
    refine ⟨hupdate, hfile, ⟨Nat.two_pos, ?_⟩, Nat.two_pos, trivial, ⟨Nat.two_pos, by simp⟩,
      trivial⟩
    intro e he
    rw [List.mem_singleton.1 he]
    refine ⟨Nat.two_pos, fun t ht => ?_⟩
    obtain rfl : 1 = t := Option.some.inj ht
    exact ⟨⟨sampleFile "b.py", 2⟩, [⟨sampleFile "a.py", 1⟩, ⟨sampleFile "b.py", 2⟩], rfl, rfl,
      by simp⟩
  have hroom : (sampleCalls.map StoreCall.records).sum < Text.wordSize 63 := by decide
  exact ⟨hproper, hroom, memory_and_database_agree sampleCalls hproper hroom⟩

end CodeSurvey
