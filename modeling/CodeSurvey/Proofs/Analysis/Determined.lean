-- An analysis that completes determines what the store answers about its
-- repository: the files are those that were found, and the facts and edges those
-- that the surveyors tell, whatever earlier analyses left. What the store
-- answers about other repositories stays.
import CodeSurvey.Proofs.Analysis.Stages
import CodeSurvey.Proofs.Store.Memory

namespace CodeSurvey

/-! ## How a handled job ends -/

namespace Analyzer

/-- A handled job is an analysis that gave no failure, or one whose failure was written down. -/
theorem handler_cases {σ : Type} [Storage σ] (a : Analyzer) (job : Job) (s : Site σ) :
    (∃ r, (a.survey job.repository job.data s).result = .ok r ∧
      (a.handler job s).1.outcome = .succeeded ∧
      (a.handler job s).2 = (a.survey job.repository job.data s).state) ∨
    ∃ e, (a.survey job.repository job.data s).result = .error e ∧
      (a.handler job s).1.outcome = .failed e ∧
      (a.handler job s).2 = (Site.onStore (Storage.updateRepository job.repository
        (.failure e.message)) (a.survey job.repository job.data s).state).2 := by
  have houtcome : (a.handler job s).1.outcome =
      outcomeOf (a.analyze job.repository job.data s).result := Work.outcome_ofReports _ _
  have hstate : (a.handler job s).2 = (a.analyze job.repository job.data s).state := rfl
  rw [houtcome, hstate]
  unfold analyze outcomeOf
  cases hresult : (a.survey job.repository job.data s).result with
  | ok r => exact .inl ⟨r, rfl, by simp only [hresult], by simp only [hresult]⟩
  | error e => exact .inr ⟨e, rfl, by simp only [hresult], by simp only [hresult]⟩

/-! ## What there is to store -/

/-- The files of the job come to the disk, which is then as told, and are found there. -/
def Finds (a : Analyzer) (job : Job) (before after : Disk) (found : Discovered) : Prop :=
  ∃ source path, sourceOf job.data = .ok source ∧
    a.materialize job.repository source before = (.ok path, after) ∧
    discover a.discovery path after = .ok found

/-- What is found is found where the source was brought to. -/
theorem Finds.of_materialize {a : Analyzer} {job : Job} {before after disk : Disk}
    {found : Discovered} {source : RepositorySource} {r : Except Failure String}
    (h : a.Finds job before after found) (hsource : sourceOf job.data = .ok source)
    (hr : a.materialize job.repository source before = (r, disk)) :
    ∃ path, r = .ok path ∧ after = disk ∧ discover a.discovery path after = .ok found := by
  obtain ⟨source', path, hsource', hpath, hfound⟩ := h
  obtain rfl := Except.ok.inj (hsource.symm.trans hsource')
  rw [hr, Prod.mk.injEq] at hpath
  exact ⟨path, hpath.1, hpath.2.symm, hfound⟩

/-- There is one way to find the files at most. -/
theorem Finds.unique {a : Analyzer} {job : Job} {before after after' : Disk}
    {found found' : Discovered} (h : a.Finds job before after found)
    (h' : a.Finds job before after' found') : after' = after ∧ found' = found := by
  obtain ⟨source, path, hsource, hpath, hfound⟩ := h
  obtain ⟨path', hok, rfl, hfound'⟩ := h'.of_materialize hsource hpath
  obtain rfl := Except.ok.inj hok
  exact ⟨rfl, Except.ok.inj (hfound'.symm.trans hfound)⟩

/-- The largest number of ids that an analysis gives out for what was found. -/
def idsFor (a : Analyzer) (repository : String) (d : Disk) (found : Discovered) : Nat :=
  let records := FoundFile.records repository d found.files
  records.length + (records.map a.registry.weight).sum

variable {σ : Type} [Storage σ] [LawfulStorage σ]

open LawfulStorage

/-- What the analysis finds can be stored: no file is too large for a column, and there are ids
left for all. -/
structure HasSpace (a : Analyzer) (job : Job) (s : Site σ) : Prop where
  sizes : ∀ disk found, a.Finds job s.disk disk found → ∀ f ∈ found.files, FitsColumn f.size
  ids : ∀ disk found, a.Finds job s.disk disk found →
    (last s.store).Room (a.idsFor job.repository disk found)

/-! ## The stages together -/

theorem update_reaches {s : Site σ} {c : Contents} (h : InOrder s.store c) (id : String)
    (u : RepositoryUpdate) :
    ∃ r kept, kept.id = id ∧ (Site.onStore (Storage.updateRepository id u) s).1 = .ok r ∧
      Reaches 0 s (Site.onStore (Storage.updateRepository id u) s).2 (c.putRepository kept) := by
  obtain ⟨kept, s', hrun, hid, -, hcounts, hkeeps⟩ := updateRepository id u h.keeps
  simp only [Site.onStore, hrun]
  exact ⟨c.updated id u, kept, hid, rfl, rfl, hcounts, h.putRepository hkeeps⟩

/-- The first half of an analysis, up to the files that are found. Work that comes behind may rely
on these; a failure means that nothing is found. -/
theorem find_ends (a : Analyzer) {s : Site σ} {c : Contents} (h : InOrder s.store c) (job : Job)
    {β : Type} {f : String → Discovered → Reporting (Site σ) β}
    {q : Except Failure β → Site σ → Prop}
    (hok : ∀ path found disk s' kept, a.Finds job s.disk disk found → kept.id = job.repository →
      Reaches 0 s s' (c.putRepository kept) → (f path found).Ends { s' with disk := disk } q)
    (herror : ∀ e s' c', InOrder s'.store c' → (∀ disk found, ¬ a.Finds job s.disk disk found) →
      q (.error e) s') :
    Reporting.Ends (do
      let _ ← Reporting.run (Site.onStore (Storage.updateRepository job.repository
        (.toStatus .processing)))
      let source ← Reporting.run (.ask (fun _ => sourceOf job.data))
      let path ← Reporting.run (Site.onDisk (a.materialize job.repository source))
      Reporting.report materialized (some (.record [("storage_path", .text path)]))
      let found ← Reporting.run (.ask (fun s => discover a.discovery path s.disk))
      Reporting.report discovered
        (some (.record [("files_discovered", Json.nat found.files.length)]))
      f path found) s q := by
  obtain ⟨r, kept, hid, hrun, hupdate⟩ := update_reaches h job.repository (.toStatus .processing)
  refine Reporting.Ends.bind_ok (p := fun t => t = (Site.onStore
    (Storage.updateRepository job.repository (.toStatus .processing)) s).2)
    (Reporting.ends_run ⟨hrun, rfl⟩) ?_
  rintro _ rfl
  generalize (Site.onStore (Storage.updateRepository job.repository (.toStatus .processing)) s).2 =
    s₁ at hupdate ⊢
  refine Reporting.Ends.bind (p := fun x t => sourceOf job.data = x ∧ s₁ = t)
    (Reporting.ends_run ⟨rfl, rfl⟩) ?_ ?_
  · rintro source _ ⟨hsource, rfl⟩
    refine Reporting.Ends.bind (p := fun x t => ∃ disk,
      a.materialize job.repository source s.disk = (x, disk) ∧ t = { s₁ with disk := disk })
      (Reporting.ends_run ⟨_, by rw [← hupdate.disk]; rfl, rfl⟩) ?_ ?_
    · rintro path _ ⟨disk, hpath, rfl⟩
      refine Reporting.ends_report ?_
      refine Reporting.Ends.bind (p := fun x t => discover a.discovery path disk = x ∧
        t = { s₁ with disk := disk }) (Reporting.ends_run ⟨rfl, rfl⟩) ?_ ?_
      · rintro found _ ⟨hfound, rfl⟩
        exact Reporting.ends_report
          (hok path found disk s₁ kept ⟨source, path, hsource, hpath, hfound⟩ hid hupdate)
      · rintro e _ ⟨hfound, rfl⟩
        refine herror e _ _ hupdate.order fun disk' found hfinds => ?_
        obtain ⟨path', hok', rfl, hfound'⟩ := hfinds.of_materialize hsource hpath
        obtain rfl := Except.ok.inj hok'
        rw [hfound] at hfound'
        cases hfound'
    · rintro e _ ⟨disk, hpath, rfl⟩
      refine herror e _ _ hupdate.order fun disk' found hfinds => ?_
      obtain ⟨path', hok', -⟩ := hfinds.of_materialize hsource hpath
      cases hok'
  · rintro e _ ⟨hsource, rfl⟩
    refine herror e _ _ hupdate.order ?_
    rintro disk found ⟨source', path', hsource', -⟩
    rw [hsource] at hsource'
    cases hsource'

/-- Files were stored for a repository in the place of earlier ones, and surveyed. -/
structure Replaced (r : Registry) (repository : String) (new : List NewFile) (c c' : Contents)
    (stored : List StoredFile) : Prop where
  records : stored.map (·.toNewFile) = new
  fresh : ∀ f ∈ stored, ∀ g ∈ c.files, f.id ≠ g.id
  surveyed : Surveyed r stored ((c.clear repository).addFiles stored) c'

/-- Only the records of the repositories were written beside that. -/
theorem Replaced.putRepository {r : Registry} {repository : String} {new : List NewFile}
    {c c' : Contents} {stored : List StoredFile} {before : Repository}
    (h : Replaced r repository new (c.putRepository before) c' stored) (after : Repository) :
    Replaced r repository new c (c'.putRepository after) stored :=
  ⟨h.records, h.fresh, h.surveyed.files, h.surveyed.facts, h.surveyed.edges,
    h.surveyed.otherFacts, h.surveyed.otherEdges⟩

/-- The second half of an analysis: what was stored for the repository gives way to what was found.
Work that comes behind may rely on that; a failure means that the files are not admitted. -/
theorem replace_ends (a : Analyzer) {s : Site σ} {c : Contents} (h : InOrder s.store c)
    (repository : String) (found : Discovered) (hsizes : ∀ f ∈ found.files, FitsColumn f.size)
    (hroom : (last s.store).Room (a.idsFor repository s.disk found)) {β : Type}
    {f : Reporting (Site σ) β} {q : Except Failure β → Site σ → Prop}
    (hok : ∀ s' c' stored, s'.disk = s.disk → InOrder s'.store c' →
      Replaced a.registry repository (FoundFile.records repository s.disk found.files) c c' stored →
      f.Ends s' q)
    (herror : ∀ e s' c', InOrder s'.store c' →
      ¬ (c.clear repository).Admits (FoundFile.records repository s.disk found.files) →
      q (.error e) s') :
    Reporting.Ends (do
      let _ ← Reporting.run (Site.onStore (Storage.clearFiles repository))
      let stored ← a.storeFiles repository found.files
      a.storeFactsOf stored
      f) s q := by
  obtain ⟨s₁, hrun, hcounts, hkeeps⟩ := clearFiles repository h.keeps h.whole
  have hclear : Reaches 0 s { s with store := s₁ } (c.clear repository) :=
    ⟨rfl, hcounts, h.clear hkeeps⟩
  refine Reporting.Ends.bind_ok (a := (c.filesOf repository).length)
    (p := fun t => t = { s with store := s₁ })
    (Reporting.ends_run (by simp [Site.onStore, hrun])) ?_
  rintro _ rfl
  replace hroom := hroom.still hclear.counts
  have hfits : ∀ f ∈ FoundFile.records repository s.disk found.files, f.Fits := by
    intro f hf
    obtain ⟨-, x, hx, hsize⟩ := FoundFile.of_mem_records hf
    unfold NewFile.Fits
    rw [hsize]
    exact hsizes x hx
  refine Reporting.Ends.bind (a.storeFiles_stored hclear.order repository found.files hfits
    (hroom.mono (Nat.le_add_right _ _))) ?_ ?_
  · rintro stored s₂ ⟨_, hstored⟩
    obtain ⟨rfl, hrecords⟩ := hstored.answered stored rfl
    have hweights : weights a.registry stored =
        ((FoundFile.records repository s.disk found.files).map a.registry.weight).sum := by
      rw [← hrecords, List.map_map]
      rfl
    have hfresh := fresh_of_later h.keeps (hstored.toFilesAdded.after hclear).later
    have hreadable := readable_addFiles hclear.order.whole hstored.distinct fun f hf g hg =>
      hfresh f hf g (List.mem_filter.1 hg).1
    refine (a.storeFactsOf_added hstored.order hreadable ?_).bind_ok ?_
    · rw [hweights]
      exact hroom.after hstored.counts
    · rintro s₃ ⟨c', hreaches, hsurveyed⟩
      exact hok s₃ c' stored (hreaches.disk.trans hstored.disk) hreaches.order
        ⟨hrecords, hfresh, hsurveyed⟩
  · rintro e s₂ ⟨stored, hstored⟩
    refine herror e s₂ _ hstored.order fun hadmits => ?_
    obtain ⟨xs, hxs⟩ := hstored.admitted hadmits
    cases hxs

/-- What comes of an analysis. When it gives no failure, what was stored for the repository gave way
to what was found; and it gives none when files are found, no two of them with one path. -/
structure Comes (a : Analyzer) (job : Job) (s : Site σ) (c : Contents)
    (res : Except Failure Repository) (s' : Site σ) (c' : Contents) : Prop where
  order : InOrder s'.store c'
  replaced : ∀ r, res = .ok r → ∃ found stored, a.Finds job s.disk s'.disk found ∧
    Replaced a.registry job.repository
      (FoundFile.records job.repository s'.disk found.files) c c' stored
  completes : ∀ disk found, a.Finds job s.disk disk found →
    ((FoundFile.records job.repository disk found.files).map (·.path)).Nodup → ∃ r, res = .ok r

/-- Whatever comes of an analysis, the store stays in order. -/
theorem survey_ends (a : Analyzer) {s : Site σ} {c : Contents} (h : InOrder s.store c) {job : Job}
    (hspace : a.HasSpace job s) :
    Reporting.Ends (a.survey job.repository job.data) s (fun res s' =>
      ∃ c', a.Comes job s c res s' c') := by
  unfold survey
  refine a.find_ends h job ?_ fun e s' c' horder hnone => ?_
  · intro path found disk s₁ kept hfinds hid hupdate
    refine a.replace_ends (s := { s₁ with disk := disk }) hupdate.order job.repository found
      (hspace.sizes disk found hfinds) ((hspace.ids disk found hfinds).still hupdate.counts) ?_ ?_
    · rintro s₂ c₂ stored hdisk horder hreplaced
      obtain ⟨r, kept', -, hrun, hlast⟩ := update_reaches horder job.repository
        (completion path found.totals)
      have hdisk' := hlast.disk.trans hdisk
      refine Reporting.ends_run ⟨c₂.putRepository kept', hlast.order, fun _ _ =>
        ⟨found, stored, ?_, ?_⟩, fun _ _ _ _ => ⟨r, hrun⟩⟩
      · rw [hdisk']
        exact hfinds
      · rw [hdisk']
        exact hreplaced.putRepository kept'
    · intro e s' c' horder hrefused
      refine ⟨c', horder, (fun r hr => nomatch hr), fun disk' found' hfinds' hdistinct => ?_⟩
      obtain ⟨rfl, rfl⟩ := hfinds.unique hfinds'
      refine absurd (Contents.admits_clear ?_ ?_ hdistinct) hrefused
      · rw [Contents.Whole.knows_putRepository, hid]
        simp
      · exact fun f hf => (FoundFile.of_mem_records hf).1
  · exact ⟨c', horder, (fun r hr => nomatch hr), fun disk found hfinds => absurd hfinds
      (hnone disk found)⟩

end Analyzer

/-! ## What the store answers -/

section Answers

variable {σ : Type} [Storage σ] [LawfulStorage σ]

open LawfulStorage

/-- What a store answers about a repository of which the records are stored, and surveyed. Only
these files have facts and edges. -/
structure Answers (r : Registry) (repository : String) (records : List NewFile) (s : σ)
    (stored : List StoredFile) : Prop where
  files : Storage.files repository s = (.ok stored, s)
  records : stored.map (·.toNewFile) = records
  distinct : (stored.map (·.id)).Nodup
  factsOfFile : ∀ f ∈ stored, ∃ facts, Storage.factsOfFile f.id s = (.ok facts, s) ∧
    facts.map (·.fact) = r.factsOf f.toNewFile
  facts : ∃ facts, Storage.facts repository s = (.ok facts, s) ∧
    (∀ f ∈ stored, (facts.filter (fun x => x.file == f.id)).map (·.fact) =
      r.factsOf f.toNewFile) ∧
    ∀ x ∈ facts, x.file ∈ stored.map (·.id)
  edges : ∃ edges, Storage.edges repository s = (.ok edges, s) ∧
    (∀ f ∈ stored, (edges.filter (fun e => e.sourceFile == f.id)).map (·.toEdge) = r.edgesOf f) ∧
    ∀ e ∈ edges, e.sourceFile ∈ stored.map (·.id)

/-- Two stores answer the same about a repository. -/
structure SameAnswers (repository : String) (s s' : σ) : Prop where
  files : (Storage.files repository s').1 = (Storage.files repository s).1
  facts : (Storage.facts repository s').1 = (Storage.facts repository s).1
  edges : (Storage.edges repository s').1 = (Storage.edges repository s).1

/-- Clearing a repository leaves the facts of others. -/
theorem Contents.Whole.factsOf_clear {c : Contents} (h : c.Whole) {repository other : String}
    (hne : other ≠ repository) : (c.clear repository).factsOf other = c.factsOf other := by
  unfold Contents.factsOf
  simp only [Contents.clear, List.filter_filter]
  refine List.filter_congr fun x hx => ?_
  have hout : x.repository = other → x.file ∉ c.idsOf repository := by
    rintro rfl
    rwa [h.fact_mem_idsOf hx]
  simpa using hout

/-- It leaves their edges as well, since none of them leads to a stored file. -/
theorem InOrder.edgesOf_clear {s : σ} {c : Contents} (h : InOrder s c) {repository other : String}
    (hne : other ≠ repository) : (c.clear repository).edgesOf other = c.edgesOf other := by
  have hdetached : ∀ e ∈ c.edges, e.detached (c.idsOf repository) = e := by
    intro e he
    have htarget := h.untargeted e he
    rcases e with ⟨⟨_, _, target, _, _, _, _⟩, _⟩
    obtain rfl : target = none := htarget
    rfl
  unfold Contents.edgesOf
  rw [Contents.clear, List.map_congr_left fun e he => hdetached e (List.mem_filter.1 he).1,
    List.map_id'' fun _ => rfl, List.filter_filter]
  refine List.filter_congr fun e he => ?_
  have hout : e.repository = other → e.sourceFile ∉ c.idsOf repository := by
    rintro rfl
    rwa [h.whole.edge_mem_idsOf he]
  simpa using hout

namespace Analyzer.Replaced

variable {r : Registry} {repository : String} {new : List NewFile} {c c' : Contents}
  {stored : List StoredFile}

theorem filesOf_eq (h : Replaced r repository new c c' stored)
    (hnew : ∀ f ∈ new, f.repository = repository) : c'.filesOf repository = stored := by
  have hstored : ∀ f ∈ stored, f.repository = repository := fun f hf =>
    hnew f.toNewFile (h.records ▸ List.mem_map_of_mem hf)
  unfold Contents.filesOf
  rw [h.surveyed.files]
  exact filter_replaced_same hstored _

theorem answers (h : Replaced r repository new c c' stored) {s : σ} (horder : InOrder s c')
    (hnew : ∀ f ∈ new, f.repository = repository) : Answers r repository new s stored := by
  have hfiles := h.filesOf_eq hnew
  have hids : c'.idsOf repository = stored.map (·.id) := congrArg _ hfiles
  have hmem : ∀ f ∈ stored, f ∈ c'.files ∧ f.repository = repository := by
    intro f hf
    rw [← hfiles] at hf
    simpa [Contents.filesOf] using hf
  refine ⟨?_, h.records, ?_, fun f hf => ⟨_, factsOfFile f.id horder.keeps, h.surveyed.facts f hf⟩,
    ⟨_, facts repository horder.keeps, fun f hf => ?_, fun x hx => ?_⟩,
    ⟨_, edges repository horder.keeps, fun f hf => ?_, fun e he => ?_⟩⟩
  · rw [← hfiles]
    exact files repository horder.keeps
  · rw [← hfiles]
    exact horder.whole.distinct.sublist (List.filter_sublist.map _)
  · rw [← h.surveyed.facts f hf, Contents.factsOf, List.filter_filter]
    refine congrArg _ (List.filter_congr fun x hx => ?_)
    have hr : x.file = f.id → x.repository = repository := fun heq =>
      (horder.whole.fact_mem_idsOf hx).1 (by rw [hids, heq]; exact List.mem_map_of_mem hf)
    simpa using hr
  · rw [← hids]
    obtain ⟨hx, hr⟩ := List.mem_filter.1 hx
    exact (horder.whole.fact_mem_idsOf hx).2 (beq_iff_eq.1 hr)
  · rw [← h.surveyed.edges f hf, Contents.edgesOf, List.filter_filter]
    refine congrArg _ (List.filter_congr fun e he => ?_)
    have hr : e.sourceFile = f.id → e.repository = repository := fun heq =>
      (horder.whole.edge_mem_idsOf he).1 (by rw [hids, heq]; exact List.mem_map_of_mem hf)
    simpa using hr
  · rw [← hids]
    obtain ⟨he, hr⟩ := List.mem_filter.1 he
    exact (horder.whole.edge_mem_idsOf he).2 (beq_iff_eq.1 hr)

theorem sameAnswers (h : Replaced r repository new c c' stored) {s s' : σ} (horder : InOrder s c)
    (horder' : InOrder s' c') (hnew : ∀ f ∈ new, f.repository = repository) {other : String}
    (hne : other ≠ repository) : SameAnswers other s s' := by
  have hids : c'.idsOf repository = stored.map (·.id) := congrArg _ (h.filesOf_eq hnew)
  -- no file that was left has the id of one that was stored
  have hleft : ∀ g ∈ (c.clear repository).files, g.id ∉ stored.map (·.id) := by
    intro g hg hin
    obtain ⟨f, hf, hid⟩ := List.mem_map.1 hin
    exact h.fresh f hf g (List.mem_filter.1 hg).1 hid
  have hfiles : c'.filesOf other = c.filesOf other := by
    unfold Contents.filesOf
    rw [h.surveyed.files]
    refine filter_replaced (fun f hf => hnew f.toNewFile (h.records ▸ List.mem_map_of_mem hf))
      (fun f hf => ?_) _
    rw [hf]
    simpa using hne.symm
  have hfacts : c'.factsOf other = c.factsOf other := by
    rw [← horder.whole.factsOf_clear hne]
    refine filter_eq_of_outside h.surveyed.otherFacts (fun x hx hr => ?_) fun x hx _ => ?_
    · rw [← hids, horder'.whole.fact_mem_idsOf hx, beq_iff_eq.1 hr]
      exact hne
    · obtain ⟨g, hg, hid, -⟩ := (horder.whole.clear repository).fact x hx
      rw [← hid]
      exact hleft g hg
  have hedges : c'.edgesOf other = c.edgesOf other := by
    rw [← horder.edgesOf_clear hne]
    refine filter_eq_of_outside h.surveyed.otherEdges (fun e he hr => ?_) fun e he _ => ?_
    · rw [← hids, horder'.whole.edge_mem_idsOf he, beq_iff_eq.1 hr]
      exact hne
    · obtain ⟨g, hg, hid, -⟩ := (horder.whole.clear repository).edge e he
      rw [← hid]
      exact hleft g hg
  constructor
  · rw [files other horder'.keeps, files other horder.keeps, hfiles]
  · rw [facts other horder'.keeps, facts other horder.keeps, hfacts]
  · rw [edges other horder'.keeps, edges other horder.keeps, hedges]

end Analyzer.Replaced

/-! ## Any number of analyses -/

/-- The store was empty, and analyses worked on it since, whatever came of them. -/
inductive LeftByAnalyses : σ → Prop
  | empty {s : σ} : Keeps s .empty → LeftByAnalyses s
  | analysis {s : Site σ} {a : Analyzer} {job : Job} : LeftByAnalyses s.store → a.HasSpace job s →
      LeftByAnalyses (a.handler job s).2.store

/-- An analysis leaves the store in order, also when it fails. -/
theorem Analyzer.inOrder_handler (a : Analyzer) {s : Site σ} {c : Contents}
    (h : InOrder s.store c) {job : Job} (hspace : a.HasSpace job s) :
    ∃ c', InOrder (a.handler job s).2.store c' := by
  obtain ⟨c', hcomes⟩ := a.survey_ends h hspace
  rcases a.handler_cases job s with ⟨r, -, -, hstate⟩ | ⟨e, -, -, hstate⟩
  · rw [hstate]
    exact ⟨c', hcomes.order⟩
  · obtain ⟨r, kept, -, -, hupdate⟩ :=
      update_reaches hcomes.order job.repository (.failure e.message)
    rw [hstate]
    exact ⟨c'.putRepository kept, hupdate.order⟩

theorem LeftByAnalyses.inOrder {s : σ} (h : LeftByAnalyses s) : ∃ c, InOrder s c := by
  induction h with
  | empty hkeeps => exact ⟨.empty, hkeeps, Contents.whole_empty, by simp [Contents.Untargeted,
      Contents.empty]⟩
  | analysis _ hspace ih =>
    obtain ⟨c, horder⟩ := ih
    exact Analyzer.inOrder_handler _ horder hspace

/-- An analysis completes when files are found, no two of them with one path. -/
theorem Analyzer.handler_succeeds (a : Analyzer) {s : Site σ} {job : Job}
    (hleft : LeftByAnalyses s.store) (hspace : a.HasSpace job s) {disk : Disk} {found : Discovered}
    (hfinds : a.Finds job s.disk disk found)
    (hdistinct : ((FoundFile.records job.repository disk found.files).map (·.path)).Nodup) :
    (a.handler job s).1.outcome = .succeeded := by
  obtain ⟨c, horder⟩ := hleft.inOrder
  obtain ⟨c', hcomes⟩ := a.survey_ends horder hspace
  obtain ⟨r, hr⟩ := hcomes.completes disk found hfinds hdistinct
  rcases a.handler_cases job s with ⟨-, -, hdone, -⟩ | ⟨e, he, -, -⟩
  · exact hdone
  · rw [hr] at he
    cases he

/-- A completed analysis determines the store, whatever earlier analyses left there. Of the files
that it found on the disk just those that are texts are stored, in the order in which they were
found, each with what is told of it; and other repositories stay as they were. It does not matter
how large the batches are and in which order they are written. -/
theorem completed_analysis_determines_store (a : Analyzer) {s : Site σ} {job : Job}
    (hleft : LeftByAnalyses s.store) (hspace : a.HasSpace job s)
    (hdone : (a.handler job s).1.outcome = .succeeded) :
    ∃ found stored, a.Finds job s.disk (a.handler job s).2.disk found ∧
      Answers a.registry job.repository
        (FoundFile.records job.repository (a.handler job s).2.disk found.files)
        (a.handler job s).2.store stored ∧
      (∀ repository old, (Storage.files repository s.store).1 = .ok old →
        ∀ f ∈ stored, f.id ∉ old.map (·.id)) ∧
      ∀ other, other ≠ job.repository → SameAnswers other s.store (a.handler job s).2.store := by
  obtain ⟨c, horder⟩ := hleft.inOrder
  obtain ⟨c', hcomes⟩ := a.survey_ends horder hspace
  rcases a.handler_cases job s with ⟨r, hr, -, hstate⟩ | ⟨e, -, hfailed, -⟩
  swap
  · rw [hfailed] at hdone
    cases hdone
  rw [hstate]
  obtain ⟨found, stored, hfinds, hreplaced⟩ := hcomes.replaced r hr
  have hnew : ∀ f ∈ FoundFile.records job.repository
      (a.survey job.repository job.data s).state.disk found.files,
      f.repository = job.repository := fun f hf => (FoundFile.of_mem_records hf).1
  refine ⟨found, stored, hfinds, hreplaced.answers hcomes.order hnew,
    fun repository old hold f hf => ?_,
    fun other hne => hreplaced.sameAnswers horder hcomes.order hnew hne⟩
  rw [files repository horder.keeps] at hold
  obtain rfl := Except.ok.inj hold
  intro hin
  obtain ⟨g, hg, hid⟩ := List.mem_map.1 hin
  exact hreplaced.fresh f hf g (List.mem_filter.1 hg).1 hid.symm

end Answers

/-! ## A small analysis -/

namespace Small

/-- A file that is a text, and one that is none. -/
def entries : List (String × Disk.Node) :=
  [("a.py", .file (.bytes "x".toUTF8)), ("b.py", .file (.bytes ⟨#[0]⟩))]

def disk : Disk := ⟨.directory entries, []⟩

/-- Tells one fact that is within a file of one line, and one that is not. -/
def surveyor : Surveyor where
  language := "python"
  extensions := ["py"]
  survey := fun _ _ => some { FileFacts.nothing with
    facts := [.bare "f" .function 1 1, .bare "g" .function 2 3]
    imports := [.plain "os" 1] }

def analyzer : Analyzer where
  materialize := fun _ _ => .answer "/"
  registry := ⟨[surveyor]⟩
  discovery := ⟨10⟩
  batchSize := 1
  order := .asStored

def job : Job := .ofRequest "1" ⟨0⟩ ⟨analysisType, "r", directoryPayload "/"⟩

def found : Discovered := .ofEntries analyzer.discovery "/" entries

theorem finds : analyzer.Finds job disk disk found := by
  refine ⟨.directory "/", "/", by decide +kernel, rfl, ?_⟩
  unfold discover
  rw [Disk.entries_root rfl]
  rfl

/-- The record of the first file. The second one is no text. -/
def record : NewFile where
  repository := "r"
  path := "a.py"
  name := "a.py"
  extension := "py"
  language := some "python"
  size := 1
  content := some "x"
  contentHash := some (Text.digest "x")

theorem records_eq : FoundFile.records "r" disk found.files = [record] := by
  have hfiles : found.files = [⟨"/a.py", "a.py", "python", 1, "py"⟩,
      ⟨"/b.py", "b.py", "python", 1, "py"⟩] := by decide +kernel
  have hfirst : disk.content "/a.py" = .ok (.bytes "x".toUTF8) :=
    Disk.content_in_root rfl "a.py" (by decide +kernel) (by decide) rfl
  have hsecond : disk.content "/b.py" = .ok (.bytes ⟨#[0]⟩) :=
    Disk.content_in_root rfl "b.py" (by decide +kernel) (by decide) rfl
  have htext : plainText? "x".toUTF8 = some "x" := by decide +kernel
  have hzero : plainText? ⟨#[0]⟩ = none := by decide +kernel
  have hname : Path.fileName? "/a.py" = some "a.py" := by decide +kernel
  rw [hfiles]
  simp only [FoundFile.records, FoundFile.record?, List.filterMap_cons, List.filterMap_nil, hfirst,
    hsecond, htext, hzero, hname, Option.map_some, Option.map_none, Option.getD_some]
  rfl

theorem hasSpace : analyzer.HasSpace job ⟨disk, MemoryStore.empty⟩ := by
  refine ⟨fun d x hx => ?_, fun d x hx => ?_⟩
  · obtain ⟨rfl, rfl⟩ := finds.unique hx
    decide +kernel
  · obtain ⟨rfl, rfl⟩ := finds.unique hx
    have hids : analyzer.idsFor "r" disk found = 4 := by
      unfold Analyzer.idsFor
      rw [records_eq]
      rfl
    change LawfulStorage.last MemoryStore.empty |>.Room (analyzer.idsFor "r" disk found)
    rw [hids]
    intro k
    cases k <;> decide

theorem succeeds : (analyzer.handler job ⟨disk, MemoryStore.empty⟩).1.outcome = .succeeded := by
  refine analyzer.handler_succeeds (.empty MemoryStore.keeps_empty) hasSpace finds ?_
  change ((FoundFile.records "r" disk found.files).map (·.path)).Nodup
  rw [records_eq]
  decide

end Small

/-- Of the two files of the small analysis the text is stored, and with it the fact that is within
the file. -/
theorem completed_analysis_of_two_files :
    (Small.analyzer.handler Small.job ⟨Small.disk, MemoryStore.empty⟩).1.outcome = .succeeded ∧
      ∃ stored, Answers Small.analyzer.registry "r" [Small.record]
        (Small.analyzer.handler Small.job ⟨Small.disk, MemoryStore.empty⟩).2.store stored ∧
        stored.map (fun f => Small.analyzer.registry.factsOf f.toNewFile) =
          [[.bare "f" .function 1 1]] := by
  obtain ⟨found, stored, hfinds, hanswers, -, -⟩ :=
    completed_analysis_determines_store Small.analyzer (.empty MemoryStore.keeps_empty)
      Small.hasSpace Small.succeeds
  obtain ⟨hdisk, rfl⟩ := Small.finds.unique hfinds
  rw [hdisk] at hanswers
  change Answers _ "r" (FoundFile.records "r" Small.disk Small.found.files) _ _ at hanswers
  rw [Small.records_eq] at hanswers
  refine ⟨Small.succeeds, stored, hanswers, ?_⟩
  have hmap := congrArg (List.map Small.analyzer.registry.factsOf) hanswers.records
  rw [List.map_map] at hmap
  refine hmap.trans ?_
  decide +kernel

end CodeSurvey
