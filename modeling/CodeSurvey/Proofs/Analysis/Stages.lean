-- What each stage of an analysis leaves in the store. Whatever comes of it, the
-- store stays in order; files that go through are those that are texts, in
-- order, whatever the batches are; and facts are stored file by file, so that
-- the order of writing does not matter.
import CodeSurvey.Proofs.Analysis.Expected

namespace CodeSurvey

/-! ## Work that reports -/

namespace Reporting

variable {σ α β : Type}

/-- What is true of the result of the work and of the state that it leaves. -/
def Ends (x : Reporting σ α) (s : σ) (q : Except Failure α → σ → Prop) : Prop :=
  q (x s).result (x s).state

theorem Ends.mono {x : Reporting σ α} {s : σ} {q q' : Except Failure α → σ → Prop}
    (h : x.Ends s q) (hq : ∀ r t, q r t → q' r t) : x.Ends s q' := hq _ _ h

/-- The second piece of work is done when the first one ended well. -/
theorem Ends.bind {x : Reporting σ α} {f : α → Reporting σ β} {s : σ}
    {p : Except Failure α → σ → Prop} {q : Except Failure β → σ → Prop} (h : x.Ends s p)
    (hok : ∀ a t, p (.ok a) t → (f a).Ends t q) (herror : ∀ e t, p (.error e) t → q (.error e) t) :
    Ends (x >>= f) s q := by
  unfold Ends at h ⊢
  change q (andThen x f s).result (andThen x f s).state
  cases hr : (x s).result with
  | ok a =>
    rw [hr] at h
    simpa only [andThen, hr, Ends] using hok a _ h
  | error e =>
    rw [hr] at h
    simpa only [andThen, hr] using herror e _ h

/-- Work that does not fail is followed by the second piece. -/
theorem Ends.bind_ok {x : Reporting σ α} {f : α → Reporting σ β} {s : σ} {a : α} {p : σ → Prop}
    {q : Except Failure β → σ → Prop} (h : x.Ends s (fun r t => r = .ok a ∧ p t))
    (hok : ∀ t, p t → (f a).Ends t q) : Ends (x >>= f) s q := by
  refine h.bind ?_ ?_
  · rintro b t ⟨hb, ht⟩
    obtain rfl := Except.ok.inj hb
    exact hok t ht
  · rintro e t ⟨he, -⟩
    cases he

theorem ends_pure {a : α} {s : σ} {q : Except Failure α → σ → Prop} (h : q (.ok a) s) :
    Ends (Pure.pure a : Reporting σ α) s q := h

theorem ends_run {c : Command σ α} {s : σ} {q : Except Failure α → σ → Prop}
    (h : q (c s).1 (c s).2) : (run c).Ends s q := h

/-- A report changes nothing, so what follows it may be looked at alone. -/
theorem ends_report {value : Int64} {extra : Option Json} {f : Unit → Reporting σ β} {s : σ}
    {q : Except Failure β → σ → Prop} (h : (f ()).Ends s q) :
    Ends (report value extra >>= f) s q := h

end Reporting

/-! ## Batches -/

/-- The batches of a list hold its items in order, whatever their size. -/
theorem Analyzer.flatten_batches {α : Type} (size : Nat) (xs : List α) :
    (Analyzer.batches size xs).flatten = xs := by
  fun_induction Analyzer.batches size xs with
  | case1 => rfl
  | case2 x r ih =>
    rw [List.flatten_cons, ih, List.cons_append, List.take_append_drop]

section Stages

variable {σ : Type} [Storage σ] [LawfulStorage σ]

open LawfulStorage

/-! ## Stores in order -/

/-- No edge leads to a stored file. An analysis stores no others. -/
def Contents.Untargeted (c : Contents) : Prop := ∀ e ∈ c.edges, e.targetFile = none

/-- The store holds the contents, all hangs together, and no edge leads to a stored file. -/
structure InOrder (s : σ) (c : Contents) : Prop where
  keeps : Keeps s c
  whole : c.Whole
  untargeted : c.Untargeted

theorem InOrder.putRepository {s s' : σ} {c : Contents} (h : InOrder s c) {r : Repository}
    (hkeeps : Keeps s' (c.putRepository r)) : InOrder s' (c.putRepository r) :=
  ⟨hkeeps, h.whole.putRepository r, h.untargeted⟩

theorem InOrder.clear {s s' : σ} {c : Contents} (h : InOrder s c) {repository : String}
    (hkeeps : Keeps s' (c.clear repository)) : InOrder s' (c.clear repository) := by
  refine ⟨hkeeps, h.whole.clear repository, fun d hd => ?_⟩
  obtain ⟨e, he, rfl⟩ := List.mem_map.1 hd
  simp [StoredEdge.detached, h.untargeted e (List.mem_filter.1 he).1]

/-- From one site another was reached whose store holds the contents in order. The disk is as
before, and so many ids were given out at most. -/
structure Reaches (n : Nat) (s s' : Site σ) (c : Contents) : Prop where
  disk : s'.disk = s.disk
  counts : (last s.store).Counts n (last s'.store)
  order : InOrder s'.store c

namespace Reaches

variable {m n : Nat} {s s' s'' : Site σ} {c c' : Contents}

theorem refl (h : InOrder s.store c) : Reaches 0 s s c := ⟨rfl, .refl _, h⟩

theorem mono (h : Reaches m s s' c) (hmn : m ≤ n) : Reaches n s s' c :=
  ⟨h.disk, h.counts.mono hmn, h.order⟩

theorem trans (h : Reaches m s s' c) (h' : Reaches n s' s'' c') : Reaches (m + n) s s'' c' :=
  ⟨h'.disk.trans h.disk, h.counts.trans h'.counts, h'.order⟩

end Reaches

/-! ## Storing files -/

theorem Contents.addFiles_nil (c : Contents) : c.addFiles [] = c := by simp [Contents.addFiles]

theorem Contents.addFiles_append (c : Contents) (xs ys : List StoredFile) :
    c.addFiles (xs ++ ys) = (c.addFiles xs).addFiles ys := by
  simp [Contents.addFiles]

namespace Analyzer

/-- Files with later ids than all that were given out are not stored yet. -/
theorem fresh_of_later {s : σ} {c : Contents} (hkeeps : Keeps s c) {files : List StoredFile}
    (hlater : ∀ f ∈ files, last s .file < f.id) : ∀ f ∈ files, ∀ g ∈ c.files, f.id ≠ g.id := by
  intro f hf g hg heq
  have hlt := hlater f hf
  have hle := file_le_last hkeeps g hg
  rw [heq, Int64.lt_iff_toInt_lt] at hlt
  rw [Int64.le_iff_toInt_le] at hle
  omega

/-- Files came to be stored behind the contents. Their ids are later than all before. -/
structure FilesAdded (n : Nat) (s s' : Site σ) (c : Contents) (stored : List StoredFile) : Prop
    extends Reaches n s s' (c.addFiles stored) where
  later : ∀ f ∈ stored, last s.store .file < f.id

namespace FilesAdded

variable {m n : Nat} {s s' s'' : Site σ} {c c' : Contents} {xs ys : List StoredFile}

theorem none (h : InOrder s.store c) (n : Nat) : FilesAdded n s s c [] := by
  refine ⟨?_, by simp⟩
  rw [Contents.addFiles_nil]
  exact (Reaches.refl h).mono (Nat.zero_le n)

theorem mono (h : FilesAdded m s s' c xs) (hmn : m ≤ n) : FilesAdded n s s' c xs :=
  ⟨h.toReaches.mono hmn, h.later⟩

/-- Of earlier ids they are the later ones. -/
theorem after (h : FilesAdded n s' s'' c xs) (h' : Reaches m s s' c') :
    FilesAdded (m + n) s s'' c xs := by
  refine ⟨h'.trans h.toReaches, fun f hf => ?_⟩
  have hlater := h.later f hf
  have hcounts := h'.counts .file
  rw [Int64.lt_iff_toInt_lt] at hlater ⊢
  omega

theorem append (h : FilesAdded m s s' c xs) (h' : FilesAdded n s' s'' (c.addFiles xs) ys) :
    FilesAdded (m + n) s s'' c (xs ++ ys) := by
  have hrest := h'.after h.toReaches
  refine ⟨?_, fun f hf => ?_⟩
  · rw [Contents.addFiles_append]
    exact hrest.toReaches
  · rcases List.mem_append.1 hf with hf | hf
    · exact h.later f hf
    · exact hrest.later f hf

theorem distinct (h : FilesAdded n s s' c xs) : (xs.map (·.id)).Nodup := by
  have hall := h.order.whole.distinct
  simp only [Contents.addFiles, List.map_append] at hall
  exact (List.nodup_append.1 hall).2.1

end FilesAdded

/-- What storing files comes to. An answer tells that just these files are stored, and there is
one when they are admitted. -/
structure FilesStored (new : List NewFile) (s : Site σ) (c : Contents) (stored : List StoredFile)
    (r : Except Failure (List StoredFile)) (s' : Site σ) : Prop
    extends FilesAdded new.length s s' c stored where
  answered : ∀ xs, r = .ok xs → xs = stored ∧ stored.map (·.toNewFile) = new
  admitted : c.Admits new → ∃ xs, r = .ok xs

theorem FilesStored.nothing {s : Site σ} {c : Contents} (h : InOrder s.store c) :
    FilesStored [] s c [] (.ok []) s := by
  refine ⟨.none h _, fun xs hxs => ?_, fun _ => ⟨[], rfl⟩⟩
  obtain rfl := Except.ok.inj hxs
  exact ⟨rfl, rfl⟩

/-- The files that can be read of a batch are stored, or none of them. -/
theorem storeBatch_stored {s : Site σ} {c : Contents} (h : InOrder s.store c) (repository : String)
    (files : List FoundFile)
    (hfits : ∀ f ∈ FoundFile.records repository s.disk files, f.Fits)
    (hroom : (last s.store).Room (FoundFile.records repository s.disk files).length) :
    ∃ stored, FilesStored (FoundFile.records repository s.disk files) s c stored
      (storeBatch repository files s).1 (storeBatch repository files s).2 := by
  have hrecords : files.filterMap (newFile? repository s.disk) =
      FoundFile.records repository s.disk files :=
    List.filterMap_congr fun f _ => newFile?_eq repository s.disk f
  unfold storeBatch
  rw [hrecords]
  generalize FoundFile.records repository s.disk files = new at *
  cases new with
  | nil => exact ⟨[], .nothing h⟩
  | cons f rest =>
    simp only [Site.onStore]
    by_cases hadmits : c.Admits (f :: rest)
    · obtain ⟨stored, s', hrun, hnew, hids, hcounts, hkeeps⟩ :=
        insertFiles_ok h.keeps hadmits hfits hroom
      rw [hrun]
      have hlater : ∀ g ∈ stored, last s.store .file < g.id := fun g hg =>
        hids.above g.id (List.mem_map_of_mem hg)
      have hwhole : (c.addFiles stored).Whole :=
        h.whole.addFiles hids.nodup (fresh_of_later h.keeps hlater) (hadmits.known_stored hnew)
      refine ⟨stored, ⟨⟨rfl, hcounts, hkeeps, hwhole, h.untargeted⟩, hlater⟩, fun xs hxs => ?_,
        fun _ => ⟨stored, rfl⟩⟩
      obtain rfl := Except.ok.inj hxs
      exact ⟨rfl, hnew⟩
    · obtain ⟨e, hrun⟩ := insertFiles_refused h.keeps hadmits hfits hroom
      rw [hrun]
      exact ⟨[], .none h _, (fun xs hxs => nomatch hxs), fun h => absurd h hadmits⟩

/-- Batch by batch, all files that can be read are stored, or those of the first batches. -/
theorem storeBatches_stored {s : Site σ} {c : Contents} (h : InOrder s.store c)
    (repository : String) (all done count : Nat) (batches : List (List FoundFile))
    (hfits : ∀ f ∈ FoundFile.records repository s.disk batches.flatten, f.Fits)
    (hroom : (last s.store).Room (FoundFile.records repository s.disk batches.flatten).length) :
    Reporting.Ends (storeBatches repository all done count batches) s (fun r s' => ∃ stored,
      FilesStored (FoundFile.records repository s.disk batches.flatten) s c stored r s') := by
  induction batches generalizing s c done count with
  | nil => exact Reporting.ends_pure ⟨[], .nothing h⟩
  | cons batch rest ih =>
    have hsplit : FoundFile.records repository s.disk (batch :: rest).flatten =
        FoundFile.records repository s.disk batch ++
          FoundFile.records repository s.disk rest.flatten := by
      simp [FoundFile.records]
    rw [hsplit] at hfits hroom ⊢
    rw [List.length_append] at hroom
    obtain ⟨first, hfirst⟩ := storeBatch_stored h repository batch
      (fun f hf => hfits f (List.mem_append_left _ hf)) (hroom.mono (Nat.le_add_right _ _))
    refine Reporting.Ends.bind (p := fun r t => r = (storeBatch repository batch s).1 ∧
      t = (storeBatch repository batch s).2) (Reporting.ends_run ⟨rfl, rfl⟩) ?_ ?_
    · rintro xs t ⟨hxs, rfl⟩
      obtain ⟨rfl, hmap⟩ := hfirst.answered xs hxs.symm
      refine Reporting.ends_report ?_
      -- the other batches meet the same disk
      have hrest := ih hfirst.order (done + batch.length) (count + xs.length)
      rw [hfirst.disk] at hrest
      refine Reporting.Ends.bind (hrest (fun f hf => hfits f (List.mem_append_right _ hf))
        (hroom.after hfirst.counts)) ?_ ?_
      · rintro ys t ⟨stored, hstored⟩
        obtain ⟨rfl, hmap'⟩ := hstored.answered ys rfl
        have hadded := hfirst.toFilesAdded.append hstored.toFilesAdded
        rw [← List.length_append] at hadded
        refine Reporting.ends_pure ⟨xs ++ ys, hadded, fun zs hzs => ?_, fun _ => ⟨_, rfl⟩⟩
        obtain rfl := Except.ok.inj hzs
        exact ⟨rfl, by rw [List.map_append, hmap, hmap']⟩
      · rintro e t ⟨stored, hstored⟩
        have hadded := hfirst.toFilesAdded.append hstored.toFilesAdded
        rw [← List.length_append] at hadded
        refine ⟨xs ++ stored, hadded, (fun zs hzs => nomatch hzs), fun hadmits => ?_⟩
        obtain ⟨ys, hys⟩ := hstored.admitted (hadmits.after hmap)
        cases hys
    · rintro e t ⟨he, rfl⟩
      refine ⟨first, hfirst.toFilesAdded.mono ?_, (fun zs hzs => nomatch hzs), fun hadmits => ?_⟩
      · rw [List.length_append]
        exact Nat.le_add_right _ _
      · obtain ⟨xs, hxs⟩ := hfirst.admitted hadmits.front
        rw [hxs] at he
        cases he

theorem storeFiles_stored (a : Analyzer) {s : Site σ} {c : Contents} (h : InOrder s.store c)
    (repository : String) (files : List FoundFile)
    (hfits : ∀ f ∈ FoundFile.records repository s.disk files, f.Fits)
    (hroom : (last s.store).Room (FoundFile.records repository s.disk files).length) :
    Reporting.Ends (a.storeFiles repository files) s (fun r s' => ∃ stored,
      FilesStored (FoundFile.records repository s.disk files) s c stored r s') := by
  have hall := storeBatches_stored h repository files.length 0 0 (batches a.batchSize files)
  rw [flatten_batches] at hall
  unfold storeFiles
  split
  · rename_i hnil
    subst hnil
    exact Reporting.ends_report (Reporting.ends_pure ⟨[], .nothing h⟩)
  · exact hall hfits hroom

end Analyzer

/-! ## Storing facts -/

/-- The facts and edges of the files are those told of them, and all others are as before. -/
structure Surveyed (r : Registry) (done : List StoredFile) (c c' : Contents) : Prop where
  files : c'.files = c.files
  facts : ∀ f ∈ done, (c'.factsOfFile f.id).map (·.fact) = r.factsOf f.toNewFile
  edges : ∀ f ∈ done, (c'.edgesFrom f.id).map (·.toEdge) = r.edgesOf f
  otherFacts : c'.facts.filter (fun x => !(done.map (·.id)).contains x.file) =
    c.facts.filter (fun x => !(done.map (·.id)).contains x.file)
  otherEdges : c'.edges.filter (fun e => !(done.map (·.id)).contains e.sourceFile) =
    c.edges.filter (fun e => !(done.map (·.id)).contains e.sourceFile)

/-- Neither a fact nor an edge hangs on the file. -/
def Contents.Bare (c : Contents) (file : Int64) : Prop :=
  c.factsOfFile file = [] ∧ c.edgesFrom file = []

/-! ### Choosing items by a key -/

section Keys

variable {α κ : Type} [DecidableEq κ] {key : α → κ}

/-- What is chosen among items of other keys is not touched when those of one key are replaced. -/
theorem filter_replaced {i : κ} {new : List α} (hnew : ∀ x ∈ new, key x = i) {p : α → Bool}
    (hp : ∀ x, key x = i → p x = false) (xs : List α) :
    (xs.filter (fun x => key x != i) ++ new).filter p = xs.filter p := by
  have hnone : new.filter p = [] := List.filter_eq_nil_iff.2 fun x hx => by simp [hp x (hnew x hx)]
  rw [List.filter_append, hnone, List.append_nil, List.filter_filter]
  refine List.filter_congr fun x _ => ?_
  cases hpx : p x with
  | false => rfl
  | true =>
    have : key x ≠ i := fun hi => by rw [hp x hi] at hpx; cases hpx
    simpa using this

theorem filter_replaced_same {i : κ} {new : List α} (hnew : ∀ x ∈ new, key x = i)
    (xs : List α) :
    (xs.filter (fun x => key x != i) ++ new).filter (fun x => key x == i) = new := by
  have hnone : (xs.filter (fun x => key x != i)).filter (fun x => key x == i) = [] := by
    rw [List.filter_filter]
    exact List.filter_eq_nil_iff.2 fun x _ => by simp
  have hall : new.filter (fun x => key x == i) = new :=
    List.filter_eq_self.2 fun x hx => by simp [hnew x hx]
  rw [List.filter_append, hnone, hall, List.nil_append]

/-- Lists that are the same outside of some keys are the same in all that is chosen outside. -/
theorem filter_eq_of_outside {ids : List κ} {xs ys : List α}
    (h : xs.filter (fun x => !ids.contains (key x)) = ys.filter (fun x => !ids.contains (key x)))
    {p : α → Bool} (hx : ∀ x ∈ xs, p x = true → key x ∉ ids)
    (hy : ∀ y ∈ ys, p y = true → key y ∉ ids) : xs.filter p = ys.filter p := by
  have hout : ∀ zs : List α, (∀ z ∈ zs, p z = true → key z ∉ ids) →
      zs.filter p = (zs.filter (fun x => !ids.contains (key x))).filter p := by
    intro zs hz
    rw [List.filter_filter]
    refine List.filter_congr fun z hmem => ?_
    cases hpz : p z with
    | false => rfl
    | true => simpa using hz z hmem hpz
  rw [hout xs hx, h, ← hout ys hy]

end Keys

namespace Surveyed

variable {r : Registry} {done : List StoredFile} {c c' : Contents}

theorem refl (r : Registry) (c : Contents) : Surveyed r [] c c :=
  ⟨rfl, by simp, by simp, rfl, rfl⟩

/-- A file that was not read yet has the facts and edges that it had. -/
theorem untouched (h : Surveyed r done c c') {file : Int64} (hfile : file ∉ done.map (·.id)) :
    c'.factsOfFile file = c.factsOfFile file ∧ c'.edgesFrom file = c.edgesFrom file := by
  constructor
  · refine filter_eq_of_outside h.otherFacts (fun x _ hx => ?_) (fun x _ hx => ?_) <;>
      rwa [beq_iff_eq.1 hx]
  · refine filter_eq_of_outside h.otherEdges (fun e _ he => ?_) (fun e _ he => ?_) <;>
      rwa [beq_iff_eq.1 he]

/-- So it is as bare as before. -/
theorem bare (h : Surveyed r done c c') {file : Int64} (hfile : file ∉ done.map (·.id))
    (hbare : c.Bare file) : c'.Bare file := by
  obtain ⟨hfacts, hedges⟩ := h.untouched hfile
  exact ⟨hfacts.trans hbare.1, hedges.trans hbare.2⟩

/-- One more file has its facts and edges stored. -/
theorem replace (h : Surveyed r done c c') {f : StoredFile} (hf : f.id ∉ done.map (·.id))
    {facts : List StoredFact} {edges : List StoredEdge}
    (hfacts : facts.map (·.fact) = r.factsOf f.toNewFile) (hfactFile : ∀ x ∈ facts, x.file = f.id)
    (hedges : edges.map (·.toEdge) = r.edgesOf f) (hedgeFile : ∀ e ∈ edges, e.sourceFile = f.id) :
    Surveyed r (done ++ [f]) c (c'.replace f.id facts edges) := by
  have hother : ∀ g ∈ done, g.id ≠ f.id := fun g hg heq =>
    hf (List.mem_map.2 ⟨g, hg, heq⟩)
  have hmore : ∀ i : Int64, (!((done ++ [f]).map (·.id)).contains i) = true →
      i ∉ done.map (·.id) := by
    intro i hi hin
    rw [List.map_append, Bool.not_eq_true', List.contains_eq_mem, decide_eq_false_iff_not] at hi
    exact hi (List.mem_append_left _ hin)
  have hlast : ((done ++ [f]).map (·.id)).contains f.id = true := by simp
  refine ⟨h.files, ?_, ?_, ?_, ?_⟩
  · intro g hg
    rcases List.mem_append.1 hg with hg | hg
    · rw [← h.facts g hg]
      refine congrArg _ (filter_replaced hfactFile (fun x hx => ?_) _)
      simpa [hx] using (hother g hg).symm
    · rw [List.mem_singleton.1 hg, ← hfacts]
      exact congrArg _ (filter_replaced_same hfactFile _)
  · intro g hg
    rcases List.mem_append.1 hg with hg | hg
    · rw [← h.edges g hg]
      refine congrArg _ (filter_replaced hedgeFile (fun x hx => ?_) _)
      simpa [hx] using (hother g hg).symm
    · rw [List.mem_singleton.1 hg, ← hedges]
      exact congrArg _ (filter_replaced_same hedgeFile _)
  · refine (filter_replaced hfactFile (fun x hx => by rw [hx, hlast]; rfl) _).trans ?_
    exact filter_eq_of_outside h.otherFacts (fun x _ => hmore x.file) (fun x _ => hmore x.file)
  · refine (filter_replaced hedgeFile (fun x hx => by rw [hx, hlast]; rfl) _).trans ?_
    exact filter_eq_of_outside h.otherEdges (fun x _ => hmore x.sourceFile)
      (fun x _ => hmore x.sourceFile)

/-- The order in which the files were read does not matter, and bare files of which nothing is told
can be counted among them. -/
theorem widen (h : Surveyed r done c c') {more : List StoredFile} (hsub : ∀ f ∈ done, f ∈ more)
    (hbare : ∀ f ∈ more, f ∉ done →
      f.id ∉ done.map (·.id) ∧ c.Bare f.id ∧ r.told? f.toNewFile = none) :
    Surveyed r more c c' := by
  have hmore : ∀ i : Int64, (!(more.map (·.id)).contains i) = true → i ∉ done.map (·.id) := by
    intro i hi hin
    rw [Bool.not_eq_true', List.contains_eq_mem, decide_eq_false_iff_not] at hi
    obtain ⟨f, hf, rfl⟩ := List.mem_map.1 hin
    exact hi (List.mem_map_of_mem (hsub f hf))
  refine ⟨h.files, ?_, ?_, ?_, ?_⟩
  · intro f hf
    by_cases hdone : f ∈ done
    · exact h.facts f hdone
    · obtain ⟨hout, hb, hnone⟩ := hbare f hf hdone
      rw [(h.bare hout hb).1, Registry.factsOf, hnone]
      rfl
  · intro f hf
    by_cases hdone : f ∈ done
    · exact h.edges f hdone
    · obtain ⟨hout, hb, hnone⟩ := hbare f hf hdone
      rw [(h.bare hout hb).2, Registry.edgesOf, hnone]
      rfl
  · exact filter_eq_of_outside h.otherFacts (fun x _ => hmore x.file) (fun x _ => hmore x.file)
  · exact filter_eq_of_outside h.otherEdges (fun x _ => hmore x.sourceFile)
      (fun x _ => hmore x.sourceFile)

end Surveyed

/-! ### File by file -/

/-- The files are stored and bare, and no two of them have one id. -/
structure Readable (c : Contents) (files : List StoredFile) : Prop where
  stored : ∀ f ∈ files, f ∈ c.files
  bare : ∀ f ∈ files, c.Bare f.id
  distinct : (files.map (·.id)).Nodup

/-- Files that were just stored are bare. -/
theorem readable_addFiles {c : Contents} (h : c.Whole) {files : List StoredFile}
    (hnew : (files.map (·.id)).Nodup) (hfresh : ∀ f ∈ files, ∀ g ∈ c.files, f.id ≠ g.id) :
    Readable (c.addFiles files) files := by
  refine ⟨fun f hf => List.mem_append_right _ hf, fun f hf => ⟨?_, ?_⟩, hnew⟩
  · refine List.filter_eq_nil_iff.2 fun x hx heq => ?_
    obtain ⟨g, hg, hid, -⟩ := h.fact x hx
    exact hfresh f hf g hg (hid.trans (beq_iff_eq.1 heq)).symm
  · refine List.filter_eq_nil_iff.2 fun e he heq => ?_
    obtain ⟨g, hg, hid, -⟩ := h.edge e he
    exact hfresh f hf g hg (hid.trans (beq_iff_eq.1 heq)).symm

theorem Readable.sublist {c : Contents} {files some : List StoredFile} (h : Readable c files)
    (hsub : some.Sublist files) : Readable c some :=
  ⟨fun f hf => h.stored f (hsub.subset hf), fun f hf => h.bare f (hsub.subset hf),
    h.distinct.sublist (hsub.map _)⟩

theorem Readable.perm {c : Contents} {files files' : List StoredFile} (h : Readable c files)
    (hp : files'.Perm files) : Readable c files' :=
  ⟨fun f hf => h.stored f (hp.subset hf), fun f hf => h.bare f (hp.subset hf),
    (hp.map _).nodup_iff.2 h.distinct⟩

namespace Analyzer

variable {r : Registry} {c : Contents}

/-- The number of facts and edges that can be stored of the files, at most. -/
def weights (r : Registry) (files : List StoredFile) : Nat :=
  (files.map (fun f => r.weight f.toNewFile)).sum

theorem weights_append (r : Registry) (xs ys : List StoredFile) :
    weights r (xs ++ ys) = weights r xs + weights r ys := by
  simp [weights]

theorem weights_sublist (r : Registry) {some files : List StoredFile} (h : some.Sublist files) :
    weights r some ≤ weights r files := by
  induction h with
  | slnil => exact Nat.le_refl _
  | cons f _ ih => exact Nat.le_trans ih (Nat.le_add_left _ _)
  | cons_cons f _ ih => exact Nat.add_le_add_left ih _

/-- Reading one file stores what is told of it, and does not fail. -/
theorem storeFacts_added {s : Site σ} {c' : Contents} {done : List StoredFile} {f : StoredFile}
    (horder : InOrder s.store c') (hsurveyed : Surveyed r done c c') (hfile : f ∈ c.files)
    (hnew : f.id ∉ done.map (·.id)) (hbare : c.Bare f.id)
    (hroom : (last s.store).Room (r.weight f.toNewFile)) :
    (storeFacts r f s).1.failure = none ∧
      ∃ c'', Reaches (r.weight f.toNewFile) s (storeFacts r f s).2 c'' ∧
        Surveyed r (done ++ [f]) c c'' := by
  unfold storeFacts
  rw [Registry.factsOf?_eq]
  cases htold : r.told? f.toNewFile with
  | none =>
    refine ⟨rfl, c', (Reaches.refl horder).mono (Nat.zero_le _), ?_⟩
    refine hsurveyed.widen (fun g hg => List.mem_append_left _ hg) fun g hg hout => ?_
    obtain rfl : g = f := by
      rcases List.mem_append.1 hg with hg | hg
      · exact absurd hg hout
      · exact List.mem_singleton.1 hg
    exact ⟨hnew, hbare, htold⟩
  | some told =>
    have hweight := r.length_le_weight f
    have hcheck := r.checkEdges_edgesOf f
    have hstored : f ∈ c'.files := by rw [hsurveyed.files]; exact hfile
    have htarget : ∀ e ∈ r.edgesOf f, ∀ t ∈ e.targetFile, c'.hasFile t = true := by
      intro e he t ht
      rw [(Registry.of_mem_edgesOf he).2.2] at ht
      cases ht
    obtain ⟨facts, edges, s', hrun, hfacts, hedges, -, -, hcounts, hkeeps⟩ :=
      replaceFacts_ok horder.keeps horder.whole hstored hcheck htarget (hroom.mono hweight)
    obtain ⟨hfacts, hhang⟩ := hang_of_map_eq hfacts
    have hmem : ∀ e ∈ edges, e.toEdge ∈ r.edgesOf f := fun e he => hedges ▸ List.mem_map_of_mem he
    have horder' : InOrder s' (c'.replace f.id facts edges) := by
      refine ⟨hkeeps, horder.whole.replace hstored hhang ?_ ?_, fun e he => ?_⟩
      · exact fun e he => ⟨(Registry.of_mem_edgesOf (hmem e he)).1,
          (Registry.of_mem_edgesOf (hmem e he)).2.1⟩
      · exact fun e he => htarget e.toEdge (hmem e he)
      · rcases List.mem_append.1 he with he | he
        · exact horder.untargeted e (List.mem_filter.1 he).1
        · exact (Registry.of_mem_edgesOf (hmem e he)).2.2
    simp only [Option.isSome_some, if_true, Site.onStore, hrun]
    refine ⟨trivial, c'.replace f.id facts edges, ⟨rfl, hcounts.mono hweight, horder'⟩, ?_⟩
    exact hsurveyed.replace hnew hfacts (fun x hx => (hhang x hx).1) hedges
      fun e he => (Registry.of_mem_edgesOf (hmem e he)).1

/-- So does reading one file after the other. -/
theorem storeAllFacts_added {s : Site σ} {c' : Contents} {done files : List StoredFile}
    (horder : InOrder s.store c') (hsurveyed : Surveyed r done c c')
    (h : Readable c (done ++ files)) (hroom : (last s.store).Room (weights r files)) :
    (∀ o ∈ (storeAllFacts r files s).1, o.2.failure = none) ∧
      ∃ c'', Reaches (weights r files) s (storeAllFacts r files s).2 c'' ∧
        Surveyed r (done ++ files) c c'' := by
  induction files generalizing s c' done with
  | nil =>
    rw [List.append_nil]
    exact ⟨by simp [storeAllFacts], c', .refl horder, hsurveyed⟩
  | cons f rest ih =>
    have hsplit : done ++ f :: rest = done ++ [f] ++ rest := by simp
    rw [hsplit] at h ⊢
    have hweights : weights r (f :: rest) = r.weight f.toNewFile + weights r rest := by
      simp [weights]
    rw [hweights] at hroom ⊢
    have hdistinct := h.distinct
    rw [List.map_append, List.map_append] at hdistinct
    have hnew : f.id ∉ done.map (·.id) := fun hin =>
      (List.nodup_append.1 (List.nodup_append.1 hdistinct).1).2.2 f.id hin f.id (by simp) rfl
    have hf : f ∈ done ++ [f] ++ rest := by simp
    obtain ⟨hok, c₁, hfirst, hsurveyed₁⟩ := storeFacts_added horder hsurveyed (h.stored f hf) hnew
      (h.bare f hf) (hroom.mono (Nat.le_add_right _ _))
    obtain ⟨hoks, c₂, hrest, hsurveyed₂⟩ := ih hfirst.order hsurveyed₁ h
      (hroom.after hfirst.counts)
    refine ⟨fun o ho => ?_, c₂, hfirst.trans hrest, hsurveyed₂⟩
    rcases List.mem_cons.1 ho with rfl | ho
    · exact hok
    · exact hoks o ho

/-- The order in which a batch is written does not matter. -/
theorem factsBatch_added (a : Analyzer) {s : Site σ} {c' : Contents} {done files : List StoredFile}
    (horder : InOrder s.store c') (hsurveyed : Surveyed a.registry done c c')
    (h : Readable c (done ++ files)) (hroom : (last s.store).Room (weights a.registry files)) :
    ∃ outcomes, (a.factsBatch files s).1 = .ok outcomes ∧ (∀ o ∈ outcomes, o.failure = none) ∧
      ∃ c'', Reaches (weights a.registry files) s (a.factsBatch files s).2 c'' ∧
        Surveyed a.registry (done ++ files) c c'' := by
  have hperm := a.order.perm files
  have hweights : weights a.registry (a.order.arrange files) = weights a.registry files :=
    (hperm.map _).sum_nat
  obtain ⟨hok, c'', hreaches, hsurveyed'⟩ := storeAllFacts_added horder hsurveyed
    (h.perm (hperm.append_left done)) (by rw [hweights]; exact hroom)
  rw [hweights] at hreaches
  have hwider : Surveyed a.registry (done ++ files) c c'' := by
    have hmem := fun f => (hperm.append_left done).mem_iff (a := f)
    exact hsurveyed'.widen (fun f hf => (hmem f).1 hf) fun f hf hout => absurd ((hmem f).2 hf) hout
  refine ⟨_, rfl, fun o ho => ?_, c'', hreaches, hwider⟩
  obtain ⟨f, -, rfl⟩ := List.mem_map.1 ho
  cases hfind : (storeAllFacts a.registry (a.order.arrange files) s).1.find? (·.1 = f.id) with
  | none => rfl
  | some o => exact hok o (List.mem_of_find?_eq_some hfind)

/-- Batch by batch, what is told of all files is stored, and nothing fails. -/
theorem factsBatches_added (a : Analyzer) {s : Site σ} {c' : Contents} {done : List StoredFile}
    (horder : InOrder s.store c') (hsurveyed : Surveyed a.registry done c c') (all count : Nat)
    (t : FactTotals) (batches : List (List StoredFile))
    (h : Readable c (done ++ batches.flatten))
    (hroom : (last s.store).Room (weights a.registry batches.flatten)) :
    Reporting.Ends (a.factsBatches all count t none batches) s (fun res s' => res = .ok none ∧
      ∃ c'', Reaches (weights a.registry batches.flatten) s s' c'' ∧
        Surveyed a.registry (done ++ batches.flatten) c c'') := by
  induction batches generalizing s c' done count t with
  | nil =>
    rw [List.flatten_nil, List.append_nil]
    exact Reporting.ends_pure ⟨rfl, c', .refl horder, hsurveyed⟩
  | cons batch rest ih =>
    rw [List.flatten_cons, ← List.append_assoc] at h ⊢
    rw [List.flatten_cons, weights_append] at hroom
    rw [weights_append]
    obtain ⟨outcomes, hrun, hok, c₁, hfirst, hsurveyed₁⟩ := a.factsBatch_added horder hsurveyed
      (h.sublist (List.sublist_append_left _ _)) (hroom.mono (Nat.le_add_right _ _))
    have hnone : Option.or none (outcomes.findSome? (·.failure)) = none := by
      rw [Option.none_or, List.findSome?_eq_none_iff]
      exact hok
    refine Reporting.Ends.bind_ok (p := fun t => t = (a.factsBatch batch s).2)
      (Reporting.ends_run ⟨hrun, rfl⟩) ?_
    rintro _ rfl
    refine Reporting.ends_report ?_
    rw [hnone]
    refine (ih hfirst.order hsurveyed₁ _ _ h (hroom.after hfirst.counts)).mono ?_
    rintro res s' ⟨hres, c₂, hrest, hsurveyed₂⟩
    exact ⟨hres, c₂, hfirst.trans hrest, hsurveyed₂⟩

theorem storeFactsOf_added (a : Analyzer) {s : Site σ} (horder : InOrder s.store c)
    {files : List StoredFile} (h : Readable c files)
    (hroom : (last s.store).Room (weights a.registry files)) :
    Reporting.Ends (a.storeFactsOf files) s (fun res s' => res = .ok () ∧
      ∃ c', Reaches (weights a.registry files) s s' c' ∧ Surveyed a.registry files c c') := by
  unfold storeFactsOf
  have hreadable : Readable c (files.filter (fun f => a.registry.supports f.extension)) :=
    h.sublist List.filter_sublist
  have hweights : weights a.registry (files.filter (fun f => a.registry.supports f.extension)) ≤
      weights a.registry files := weights_sublist _ List.filter_sublist
  -- of the files that are left out nothing is told
  have hrest : ∀ c', Surveyed a.registry (files.filter (fun f => a.registry.supports f.extension))
      c c' → Surveyed a.registry files c c' := by
    intro c' hsurveyed
    refine hsurveyed.widen (fun f hf => (List.mem_filter.1 hf).1) fun f hf hout => ?_
    refine ⟨fun hin => ?_, h.bare f hf, ?_⟩
    · obtain ⟨g, hg, heq⟩ := List.mem_map.1 hin
      obtain rfl := List.inj_on_of_nodup_map h.distinct (List.mem_filter.1 hg).1 hf heq
      exact hout hg
    · refine Registry.told?_of_unsupported ?_
      simpa [hf] using hout
  generalize files.filter (fun f => a.registry.supports f.extension) = readable at *
  change Reporting.Ends (if readable = [] then _ else _) s _
  split
  · rename_i hnil
    subst hnil
    exact ⟨rfl, c, (Reaches.refl horder).mono (Nat.zero_le _), hrest c (.refl _ c)⟩
  · have hall := a.factsBatches_added horder (.refl _ c) readable.length 0 .zero
      (batches a.batchSize readable) (by rwa [flatten_batches, List.nil_append])
      (by rw [flatten_batches]; exact hroom.mono hweights)
    rw [flatten_batches, List.nil_append] at hall
    refine hall.bind_ok ?_
    rintro t ⟨c', hreaches, hsurveyed⟩
    exact ⟨rfl, c', hreaches.mono hweights, hrest c' hsurveyed⟩

end Analyzer

end Stages

end CodeSurvey
