-- A file whose facts cannot be stored does not stop the others. A store that refuses the
-- facts of some files is asked for those of every file all the same, once for each of
-- which something is told; the files that it does not refuse get what they would get
-- without a refusal, and the first refusal is given when all files were read.
import CodeSurvey.Proofs.Analysis.Determined
import CodeSurvey.Proofs.Store.Kept

namespace CodeSurvey

/-- Work behind a piece that answers starts where that piece ended. -/
theorem Reporting.bind_of_ok {σ α β : Type} {x : Reporting σ α} {f : α → Reporting σ β} {s : σ}
    {a : α} (h : (x s).result = .ok a) :
    (x >>= f) s = ⟨(f a (x s).state).result, (x s).reports ++ (f a (x s).state).reports,
      (f a (x s).state).state⟩ := by
  simp only [bind, andThen, h]

/-! ## Stores that refuse facts -/

/-- A call for the facts and edges of a file to be replaced. -/
structure FactCall where
  file : Int64
  repository : String
  facts : List Fact
  edges : List Edge
deriving DecidableEq, Repr

/-- A store that does not replace the facts and edges of some files. It notes the calls for that. -/
structure Failing (σ : Type) where
  store : σ
  fails : Int64 → Option Failure
  calls : List FactCall

namespace Failing

variable {σ α : Type} [Storage σ]

/-- The call is made of the store behind. -/
def through (c : Command σ α) : Command (Failing σ) α := fun s =>
  ((c s.store).1, { s with store := (c s.store).2 })

def replaceFacts (file : Int64) (repository : String) (facts : List Fact) (edges : List Edge) :
    Command (Failing σ) Unit := fun s =>
  let noted := { s with calls := s.calls ++ [⟨file, repository, facts, edges⟩] }
  match s.fails file with
  | some e => (.error e, noted)
  | none => through (Storage.replaceFacts file repository facts edges) noted

instance : Storage (Failing σ) where
  insertFiles new := through (Storage.insertFiles new)
  files repository := through (Storage.files repository)
  clearFiles repository := through (Storage.clearFiles repository)
  replaceFacts := replaceFacts
  factsOfFile file := through (Storage.factsOfFile file)
  facts repository := through (Storage.facts repository)
  edges repository := through (Storage.edges repository)
  updateRepository id u := through (Storage.updateRepository id u)
  repository id := through (Storage.repository id)
  deleteRepository id := through (Storage.deleteRepository id)

/-- The store refuses the facts of files as it is told to, and was not called yet. -/
def of (s : σ) (fails : Int64 → Option Failure) : Failing σ := ⟨s, fails, []⟩

end Failing

/-- The call for a file of which something is told. -/
def Registry.callFor? (r : Registry) (f : StoredFile) : Option FactCall :=
  (Analyzer.factsOf? r f).map (fun told => ⟨f.id, f.repository, told.1, told.2⟩)

theorem Registry.callFor?_eq (r : Registry) (f : StoredFile) :
    r.callFor? f = if (r.told? f.toNewFile).isSome then
      some ⟨f.id, f.repository, r.factsOf f.toNewFile, r.edgesOf f⟩ else none := by
  unfold callFor?
  rw [factsOf?_eq]
  split <;> rfl

/-- The call for a file of which something is told is refused. -/
def Registry.fault? (r : Registry) (fails : Int64 → Option Failure) (f : StoredFile) :
    Option Failure :=
  (r.callFor? f).bind (fun call => fails call.file)

/-- The facts and edges of the file are stored: something is told, and not refused. -/
def Registry.stores (r : Registry) (fails : Int64 → Option Failure) (f : StoredFile) : Bool :=
  (r.callFor? f).isSome && (fails f.id).isNone

section Written

variable {σ : Type} [Storage σ] [LawfulStorage σ] {r : Registry} {c : Contents}
  {fails : Int64 → Option Failure} {l : LastIds} {done files : List StoredFile}

open LawfulStorage Analyzer

/-- The files were read, and the facts and edges of those were stored that are not refused. -/
structure Written (r : Registry) (c : Contents) (fails : Int64 → Option Failure) (l : LastIds)
    (done : List StoredFile) (s : Failing σ) : Prop where
  refuses : s.fails = fails
  calls : s.calls = done.filterMap r.callFor?
  counts : l.Counts (weights r done) (last s.store)
  contents : ∃ c', Keeps s.store c' ∧ c'.Whole ∧ Surveyed r (done.filter (r.stores fails)) c c'

theorem Written.start {s : σ} (hkeeps : Keeps s c) (hwhole : c.Whole) :
    Written r c fails (last s) [] (Failing.of s fails) :=
  ⟨rfl, rfl, .refl _, c, hkeeps, hwhole, .refl r c⟩

/-- One more file is read. What the store refuses is the failure of its outcome. -/
theorem Written.storeFacts {s : Site (Failing σ)} (h : Written r c fails l done s.store)
    {f : StoredFile} (hfile : f ∈ c.files) (hnew : f.id ∉ done.map (·.id))
    (hroom : l.Room (weights r (done ++ [f]))) :
    Written r c fails l (done ++ [f]) (Analyzer.storeFacts r f s).2.store ∧
      (Analyzer.storeFacts r f s).1.failure = r.fault? fails f := by
  obtain ⟨hrefuses, hcalls, hcounts, c', hkeeps, hwhole, hsurveyed⟩ := h
  have hweights : weights r (done ++ [f]) = weights r done + r.weight f.toNewFile := by
    simp [weights]
  rw [hweights] at hroom
  have hsame : l.Counts (weights r (done ++ [f])) (last s.store.store) := by
    rw [hweights]
    exact hcounts.mono (Nat.le_add_right _ _)
  have hcall := r.callFor?_eq f
  unfold Analyzer.storeFacts
  rw [Registry.factsOf?_eq]
  cases htold : r.told? f.toNewFile with
  | none =>
    rw [htold] at hcall
    refine ⟨⟨hrefuses, ?_, hsame, c', hkeeps, hwhole, ?_⟩, ?_⟩
    · simpa [hcall] using hcalls
    · simpa [Registry.stores, hcall] using hsurveyed
    · simp [Registry.fault?, hcall, FileOutcome.nothing]
  | some told =>
    rw [htold] at hcall
    simp only [Option.isSome_some, if_true] at hcall ⊢
    cases hfail : fails f.id with
    | some e =>
      have hrun : Site.onStore
          (Storage.replaceFacts f.id f.repository (r.factsOf f.toNewFile) (r.edgesOf f)) s =
          (.error e, { s with store.calls := s.store.calls ++
            [⟨f.id, f.repository, r.factsOf f.toNewFile, r.edgesOf f⟩] }) := by
        simp only [Site.onStore, Storage.replaceFacts, Failing.replaceFacts, hrefuses, hfail]
      rw [hrun]
      refine ⟨⟨hrefuses, ?_, hsame, c', hkeeps, hwhole, ?_⟩, ?_⟩
      · simp [hcall, hcalls]
      · simpa [Registry.stores, hfail] using hsurveyed
      · simp [Registry.fault?, hcall, hfail]
    | none =>
      have hstored : f ∈ c'.files := by rw [hsurveyed.files]; exact hfile
      have hlead : ∀ e ∈ r.edgesOf f, ∀ t ∈ e.targetFile, c'.hasFile t = true := by
        intro e he t ht
        rw [(Registry.of_mem_edgesOf he).2.2] at ht
        cases ht
      obtain ⟨facts, edges, s', hrun, hfacts, hedges, -, -, hcounts', hkeeps'⟩ :=
        replaceFacts_ok hkeeps hwhole hstored (r.checkEdges_edgesOf f) hlead
          ((hroom.after hcounts).mono (r.length_le_weight f))
      obtain ⟨hfacts, hhang⟩ := hang_of_map_eq hfacts
      have hmem : ∀ e ∈ edges, e.toEdge ∈ r.edgesOf f := fun e he =>
        hedges ▸ List.mem_map_of_mem he
      have hrun' : Site.onStore
          (Storage.replaceFacts f.id f.repository (r.factsOf f.toNewFile) (r.edgesOf f)) s =
          (.ok (), { s with store := { s.store with
            store := s'
            calls := s.store.calls ++
              [⟨f.id, f.repository, r.factsOf f.toNewFile, r.edgesOf f⟩] } }) := by
        simp only [Site.onStore, Storage.replaceFacts, Failing.replaceFacts, hrefuses, hfail,
          Failing.through] at hrun ⊢
        rw [hrun]
      rw [hrun']
      refine ⟨⟨hrefuses, ?_, ?_, c'.replace f.id facts edges, hkeeps', ?_, ?_⟩, ?_⟩
      · simp [hcall, hcalls]
      · rw [hweights]
        exact (hcounts.trans hcounts').mono (Nat.add_le_add_left (r.length_le_weight f) _)
      · refine hwhole.replace hstored hhang (fun e he => ?_) fun e he => hlead e.toEdge (hmem e he)
        exact ⟨(Registry.of_mem_edgesOf (hmem e he)).1, (Registry.of_mem_edgesOf (hmem e he)).2.1⟩
      · have hout : f.id ∉ (done.filter (r.stores fails)).map (·.id) := fun hin =>
          hnew ((List.filter_sublist.map _).subset hin)
        have hone : [f].filter (r.stores fails) = [f] := by simp [Registry.stores, hcall, hfail]
        rw [List.filter_append, hone]
        exact hsurveyed.replace hout hfacts (fun x hx => (hhang x hx).1) hedges
          fun e he => (Registry.of_mem_edgesOf (hmem e he)).1
      · simp [Registry.fault?, hcall, hfail]

/-- Files are read one after the other, whether the store refuses some of them or not. -/
theorem Written.storeAllFacts {s : Site (Failing σ)} (h : Written r c fails l done s.store)
    (hfiles : ∀ f ∈ files, f ∈ c.files) (hdistinct : ((done ++ files).map (·.id)).Nodup)
    (hroom : l.Room (weights r (done ++ files))) :
    Written r c fails l (done ++ files) (Analyzer.storeAllFacts r files s).2.store ∧
      (Analyzer.storeAllFacts r files s).1.map (fun o => (o.1, o.2.failure)) =
        files.map (fun f => (f.id, r.fault? fails f)) := by
  induction files generalizing s done with
  | nil =>
    rw [List.append_nil]
    exact ⟨h, rfl⟩
  | cons f rest ih =>
    rw [List.append_cons] at hdistinct hroom ⊢
    have hnew : f.id ∉ done.map (·.id) := by
      rw [List.map_append, List.map_append] at hdistinct
      exact fun hin =>
        (List.nodup_append.1 (List.nodup_append.1 hdistinct).1).2.2 f.id hin f.id (by simp) rfl
    obtain ⟨hfirst, hfault⟩ := h.storeFacts (hfiles f (by simp)) hnew
      (hroom.mono (weights_sublist r (List.sublist_append_left _ _)))
    obtain ⟨hall, hfaults⟩ := ih hfirst (fun g hg => hfiles g (by simp [hg])) hdistinct hroom
    refine ⟨hall, ?_⟩
    simp only [Analyzer.storeAllFacts, List.map_cons, hfault]
    exact congrArg _ hfaults

/-- The outcome that is found under the id of a file tells its failure. -/
theorem failure_of_found {outcomes : List (Int64 × FileOutcome)}
    {failure : StoredFile → Option Failure}
    (h : outcomes.map (fun o => (o.1, o.2.failure)) = files.map (fun f => (f.id, failure f)))
    (hdistinct : (files.map (·.id)).Nodup) {f : StoredFile} (hf : f ∈ files) :
    FileOutcome.failure (((outcomes.find? (·.1 = f.id)).map (·.2)).getD .nothing) = failure f := by
  cases hfind : outcomes.find? (·.1 = f.id) with
  | none =>
    have hmem : (f.id, failure f) ∈ outcomes.map (fun o => (o.1, o.2.failure)) :=
      h ▸ List.mem_map_of_mem hf
    obtain ⟨o, ho, heq⟩ := List.mem_map.1 hmem
    have hid : o.1 = f.id := congrArg Prod.fst heq
    exact absurd hid (by simpa using List.find?_eq_none.1 hfind o ho)
  | some o =>
    have hid : o.1 = f.id := by simpa using List.find?_some hfind
    have hmem : (o.1, o.2.failure) ∈ files.map (fun f => (f.id, failure f)) :=
      h ▸ List.mem_map_of_mem (List.mem_of_find?_eq_some hfind)
    obtain ⟨g, hg, heq⟩ := List.mem_map.1 hmem
    obtain ⟨hgid, hfailure⟩ := Prod.mk.inj heq
    obtain rfl := List.inj_on_of_nodup_map hdistinct hg hf (hgid.trans hid)
    exact hfailure.symm

/-- The files of a batch are written in any order, and their failures told in that of the files. -/
theorem Written.factsBatch {a : Analyzer} {s : Site (Failing σ)}
    (h : Written a.registry c fails l done s.store) (hfiles : ∀ f ∈ files, f ∈ c.files)
    (hdistinct : ((done ++ files).map (·.id)).Nodup)
    (hroom : l.Room (weights a.registry (done ++ files))) :
    ∃ outcomes, (a.factsBatch files s).1 = .ok outcomes ∧
      outcomes.map (·.failure) = files.map (a.registry.fault? fails) ∧
      Written a.registry c fails l (done ++ a.order.arrange files) (a.factsBatch files s).2.store := by
  have hperm := a.order.perm files
  have hdone := hperm.append_left done
  have hdistinct' := (hdone.map (·.id)).nodup_iff.2 hdistinct
  have hweights : weights a.registry (done ++ a.order.arrange files) =
      weights a.registry (done ++ files) := (hdone.map _).sum_nat
  obtain ⟨hwritten, hfaults⟩ := h.storeAllFacts (fun f hf => hfiles f (hperm.subset hf)) hdistinct'
    (hweights ▸ hroom)
  refine ⟨_, rfl, ?_, hwritten⟩
  rw [List.map_map]
  refine List.map_congr_left fun f hf => ?_
  rw [List.map_append] at hdistinct'
  exact failure_of_found hfaults (List.nodup_append.1 hdistinct').2.1 (hperm.symm.subset hf)

/-- What a report of facts tells last: so many files were read. -/
def ToldLast (reports : List Report) (n : Nat) : Prop :=
  ∃ (value : Int64) (t : FactTotals), reports.getLast? = some ⟨value, some t.told⟩ ∧ t.files = n

theorem ToldLast.behind {reports : List Report} {n : Nat} (h : ToldLast reports n)
    (front : List Report) : ToldLast (front ++ reports) n := by
  obtain ⟨value, t, hlast, hn⟩ := h
  exact ⟨value, t, by rw [List.getLast?_append, hlast, Option.some_or], hn⟩

theorem files_foldl_add (outcomes : List FileOutcome) (t : FactTotals) :
    (outcomes.foldl FactTotals.add t).files = t.files + outcomes.length := by
  induction outcomes generalizing t with
  | nil => rfl
  | cons o rest ih =>
    rw [List.foldl_cons, ih, List.length_cons]
    simp only [FactTotals.add]
    omega

/-- Batch by batch, the first failure of all is kept, and all files are counted. -/
theorem Written.factsBatches {a : Analyzer} {s : Site (Failing σ)}
    (h : Written a.registry c fails l done s.store) (all count : Nat) (t : FactTotals)
    (failure : Option Failure) (batches : List (List StoredFile))
    (hfiles : ∀ f ∈ batches.flatten, f ∈ c.files)
    (hdistinct : ((done ++ batches.flatten).map (·.id)).Nodup)
    (hroom : l.Room (weights a.registry (done ++ batches.flatten))) :
    let course := a.factsBatches all count t failure batches s
    course.result = .ok (failure.or (batches.flatten.findSome? (a.registry.fault? fails))) ∧
      Written a.registry c fails l (done ++ (batches.map a.order.arrange).flatten)
        course.state.store ∧
      (batches ≠ [] → ToldLast course.reports (t.files + batches.flatten.length)) := by
  induction batches generalizing s done count t failure with
  | nil =>
    simp only [List.flatten_nil, List.findSome?_nil, Option.or_none, List.map_nil, List.append_nil]
    exact ⟨rfl, h, fun hne => absurd rfl hne⟩
  | cons batch rest ih =>
    rw [List.flatten_cons] at hfiles hdistinct hroom ⊢
    rw [← List.append_assoc] at hdistinct hroom
    have hperm := a.order.perm batch
    have hdone : (done ++ batch ++ rest.flatten).Perm
        (done ++ a.order.arrange batch ++ rest.flatten) :=
      ((hperm.symm.append_left done).append_right _)
    obtain ⟨outcomes, hrun, hfailures, hbatch⟩ := h.factsBatch
      (fun f hf => hfiles f (List.mem_append_left _ hf))
      (hdistinct.sublist ((List.sublist_append_left _ _).map _))
      (hroom.mono (weights_sublist _ (List.sublist_append_left _ _)))
    have hweights : weights a.registry (done ++ a.order.arrange batch ++ rest.flatten) =
        weights a.registry (done ++ batch ++ rest.flatten) := (hdone.map _).symm.sum_nat
    obtain ⟨hresult, hstate, htold⟩ := ih hbatch (count + outcomes.length)
      (outcomes.foldl FactTotals.add t) (failure.or (outcomes.findSome? (·.failure)))
      (fun f hf => hfiles f (List.mem_append_right _ hf)) ((hdone.map _).nodup_iff.1 hdistinct)
      (hweights ▸ hroom)
    have hfirst : outcomes.findSome? (·.failure) = batch.findSome? (a.registry.fault? fails) := by
      have hmap := congrArg (List.findSome? id) hfailures
      rwa [List.findSome?_map, List.findSome?_map] at hmap
    have hlength : outcomes.length = batch.length := by
      simpa using congrArg List.length hfailures
    have hbegun : Reporting.run (a.factsBatch batch) s = ⟨.ok outcomes, [], (a.factsBatch batch s).2⟩ := by
      simp only [Reporting.run, hrun]
    simp only [Analyzer.factsBatches, bind, Reporting.andThen, hbegun, Reporting.report]
    refine ⟨?_, ?_, fun _ => ?_⟩
    · rw [hresult, hfirst, List.findSome?_append, Option.or_assoc]
    · rwa [List.map_cons, List.flatten_cons, ← List.append_assoc]
    · rw [List.length_append, ← hlength, ← Nat.add_assoc, ← files_foldl_add]
      cases rest with
      | nil => exact ⟨_, _, rfl, rfl⟩
      | cons next rest => exact (htold (by simp)).behind [_]

/-- What the whole stage leaves of the calls, the store, the failures and the reports. -/
theorem Written.storeFactsOf (a : Analyzer) (fails : Int64 → Option Failure) {s : Site σ}
    (hkeeps : Keeps s.store c)
    (hwhole : c.Whole) (hfiles : ∀ f ∈ files, f ∈ c.files) (hnodup : files.Nodup)
    (hroom : (last s.store).Room (weights a.registry files)) :
    let course := a.storeFactsOf files ⟨s.disk, .of s.store fails⟩
    let readable := files.filter (fun f => a.registry.supports f.extension)
    (∃ written, written.Perm readable ∧
      Written a.registry c fails (last s.store) written course.state.store) ∧
    course.result = (match readable.findSome? (a.registry.fault? fails) with
      | some e => .error (.storage e.message)
      | none => .ok ()) ∧
    (readable = [] → course.reports = [⟨factsStored, none⟩]) ∧
    (readable ≠ [] → ToldLast course.reports readable.length) := by
  intro course readable
  have hsub : readable.Sublist files := List.filter_sublist
  have hstart : Written a.registry c fails (last s.store) [] (Failing.of s.store fails) :=
    .start hkeeps hwhole
  by_cases hnil : readable = []
  · have hcourse : course = Reporting.report factsStored none ⟨s.disk, .of s.store fails⟩ := by
      change (if readable = [] then _ else _ : Reporting _ Unit) _ = _
      exact congrFun (if_pos hnil) _
    rw [hcourse, hnil]
    exact ⟨⟨[], .refl _, hstart⟩, rfl, fun _ => rfl, fun hne => absurd rfl hne⟩
  · have hcourse : course = (a.factsBatches readable.length 0 .zero none
        (batches a.batchSize readable) >>= fun failure => match failure with
          | some f => Reporting.fail (.storage f.message)
          | none => pure ()) ⟨s.disk, .of s.store fails⟩ := by
      change (if readable = [] then _ else _ : Reporting _ Unit) _ = _
      exact congrFun (if_neg hnil) _
    have hids : (readable.map (·.id)).Nodup := by
      refine (hnodup.sublist hsub).map_on fun f hf g hg hid => ?_
      exact Contents.Distinct.eq_of_id hwhole.distinct (hfiles f (hsub.subset hf))
        (hfiles g (hsub.subset hg)) hid
    have hflat := flatten_batches a.batchSize readable
    obtain ⟨hresult, hwritten, htold⟩ := hstart.factsBatches (s := ⟨s.disk, .of s.store fails⟩)
      readable.length 0 .zero none (batches a.batchSize readable)
      (fun f hf => hfiles f (hsub.subset (hflat ▸ hf))) (by rwa [hflat, List.nil_append])
      (by rw [hflat, List.nil_append]; exact hroom.mono (weights_sublist _ hsub))
    rw [hflat, Option.none_or] at hresult
    rw [List.nil_append] at hwritten
    have hperm : ((batches a.batchSize readable).map a.order.arrange).flatten.Perm readable := by
      conv_rhs => rw [← hflat, ← List.flatMap_id']
      rw [← List.flatMap_def]
      exact List.Perm.flatMap_left _ fun batch _ => a.order.perm batch
    have hne : batches a.batchSize readable ≠ [] := fun hempty => hnil (by rw [← hflat, hempty]; rfl)
    have hlast := htold hne
    simp only [hflat, FactTotals.zero, Nat.zero_add] at hlast
    rw [hcourse, Reporting.bind_of_ok hresult]
    cases readable.findSome? (a.registry.fault? fails) with
    | none =>
      refine ⟨⟨_, hperm, hwritten⟩, rfl, fun h => absurd h hnil, fun _ => ?_⟩
      exact (List.append_nil _).symm ▸ hlast
    | some e =>
      refine ⟨⟨_, hperm, hwritten⟩, rfl, fun h => absurd h hnil, fun _ => ?_⟩
      exact (List.append_nil _).symm ▸ hlast

/-! ## What shows of it -/

end Written

namespace Small

end Small

end CodeSurvey
