-- The totals in the data of a completed job of analysis. They are what the store then has
-- of the repository, whatever the job was asked for with, as soon as a surveyor takes one
-- of the stored files. Where none does, the job is told nothing of facts and edges, and
-- what stands in its data under their keys is what it was asked for with.
import CodeSurvey.Proofs.Analysis.Totals
import CodeSurvey.Proofs.Discovery.Totals
import CodeSurvey.Proofs.Store.Kept

namespace CodeSurvey

/-! ## Counting by keys -/

section Keys

variable {α κ : Type} [BEq κ] [LawfulBEq κ] {key : α → κ}

/-- Items are as many as there are under each of their keys. -/
theorem length_eq_sum_of_keys {keys : List κ} (distinct : keys.Nodup) {xs : List α}
    (h : ∀ x ∈ xs, key x ∈ keys) :
    xs.length = (keys.map (fun k => (xs.filter (key · == k)).length)).sum := by
  induction keys generalizing xs with
  | nil => rw [List.eq_nil_iff_forall_not_mem.2 fun x hx => List.not_mem_nil (h x hx)]; rfl
  | cons k keys ih =>
    obtain ⟨hk, hkeys⟩ := List.nodup_cons.1 distinct
    have hothers : (xs.filter (!key · == k)).length = _ := ih hkeys fun x hx => by
      obtain ⟨hx, hne⟩ := List.mem_filter.1 hx
      exact (List.mem_cons.1 (h x hx)).resolve_left (by simpa using hne)
    have hsame : ∀ k' ∈ keys, (xs.filter (!key · == k)).filter (key · == k') =
        xs.filter (key · == k') := by
      intro k' hk'
      rw [List.filter_filter]
      refine List.filter_congr fun x _ => ?_
      have hne : k' ≠ k := fun heq => hk (heq ▸ hk')
      by_cases hx : key x = k' <;> simp [hx, hne]
    rw [List.map_congr_left fun k' hk' => congrArg List.length (hsame k' hk')] at hothers
    rw [List.map_cons, List.sum_cons, ← hothers]
    exact List.length_eq_length_filter_add _

end Keys

/-- What counts for nothing may be left out of a sum. -/
theorem sum_map_filter {α : Type} {p : α → Bool} {count : α → Nat} {xs : List α}
    (h : ∀ x ∈ xs, p x = false → count x = 0) :
    ((xs.filter p).map count).sum = (xs.map count).sum := by
  induction xs with
  | nil => rfl
  | cons x xs ih =>
    obtain ⟨hx, hxs⟩ := List.forall_mem_cons.1 h
    rw [List.filter_cons]
    split
    · rw [List.map_cons, List.sum_cons, ih hxs, List.map_cons, List.sum_cons]
    · rename_i hp
      rw [ih hxs, List.map_cons, List.sum_cons, hx (by simpa using hp), Nat.zero_add]

/-- Whether an import gives an edge is up to the import alone. -/
theorem isSome_draftEdge (repository repository' : String) (file file' : Int64) (language : String)
    (i : Import) : (draftEdge repository file language i).isSome =
      (draftEdge repository' file' language i).isSome := by
  unfold draftEdge
  dsimp only
  split <;> rfl

namespace Registry

/-- The id of a file does not matter for what is counted of it. -/
theorem counted_eq (r : Registry) (f : StoredFile) : r.counted f = r.counted ⟨f.toNewFile, 0⟩ := by
  have hedges : (r.edgesOf f).length = (r.edgesOf ⟨f.toNewFile, 0⟩).length := by
    unfold edgesOf
    cases r.told? f.toNewFile with
    | none => rfl
    | some told =>
      simp only [draftEdges, List.length_filterMap_eq_countP]
      exact List.countP_congr fun i _ => by rw [isSome_draftEdge f.repository f.repository f.id 0]
  rw [counted, counted, hedges]

/-- So files with other ids are counted alike. -/
theorem ofFiles_readable {r : Registry} {stored stored' : List StoredFile}
    (h : stored.map (·.toNewFile) = stored'.map (·.toNewFile)) :
    (r.readable stored).length = (r.readable stored').length ∧
      FactTotals.ofFiles r (r.readable stored) = FactTotals.ofFiles r (r.readable stored') := by
  have hreadable : ∀ xs : List StoredFile, (r.readable xs).map (·.toNewFile) =
      (xs.map (·.toNewFile)).filter (fun f => r.supports f.extension) :=
    fun xs => by rw [List.filter_map]; rfl
  have hsame : (r.readable stored).map (·.toNewFile) = (r.readable stored').map (·.toNewFile) := by
    rw [hreadable, hreadable, h]
  have hcounted : ∀ xs : List StoredFile, xs.map r.counted =
      (xs.map (·.toNewFile)).map (fun f => r.counted ⟨f, 0⟩) := by
    intro xs
    rw [List.map_map]
    exact List.map_congr_left fun f _ => r.counted_eq f
  refine ⟨by simpa using congrArg List.length hsame, ?_⟩
  rw [FactTotals.ofFiles, FactTotals.ofFiles, hcounted, hcounted, hsame]

end Registry

section Stored

variable {σ : Type} [Storage σ] {s : σ}

/-- The facts and edges that the store has of a repository are counted by the files that some
surveyor takes. -/
theorem Answers.totals {r : Registry} {repository : String} {records : List NewFile}
    {stored : List StoredFile} (h : Answers r repository records s stored) :
    ∃ facts edges, Storage.facts repository s = (.ok facts, s) ∧
      Storage.edges repository s = (.ok edges, s) ∧
      FactTotals.ofFiles r (r.readable stored) =
        ⟨(r.readable stored).length, facts.length, edges.length⟩ := by
  obtain ⟨facts, hfacts, htold, hown⟩ := h.facts
  obtain ⟨edges, hedges, htold', hown'⟩ := h.edges
  refine ⟨facts, edges, hfacts, hedges, ?_⟩
  -- of a file that none takes nothing is told
  have hnone : ∀ f ∈ stored, r.supports f.extension = false →
      (r.factsOf f.toNewFile).length = 0 ∧ (r.edgesOf f).length = 0 := by
    intro f _ hf
    have htold := Registry.told?_of_unsupported (f := f.toNewFile) hf
    simp [Registry.factsOf, Registry.edgesOf, htold]
  have hcount : facts.length = (stored.map (fun f => (r.factsOf f.toNewFile).length)).sum := by
    rw [length_eq_sum_of_keys h.distinct hown, List.map_map]
    refine congrArg List.sum (List.map_congr_left fun f hf => ?_)
    rw [← htold f hf, List.length_map]
    rfl
  have hcount' : edges.length = (stored.map (fun f => (r.edgesOf f).length)).sum := by
    rw [length_eq_sum_of_keys h.distinct hown', List.map_map]
    refine congrArg List.sum (List.map_congr_left fun f hf => ?_)
    rw [← htold' f hf, List.length_map]
    rfl
  rw [FactTotals.ofFiles_eq, hcount, hcount', Registry.readable,
    sum_map_filter fun f hf hp => (hnone f hf hp).1, sum_map_filter fun f hf hp => (hnone f hf hp).2]

end Stored

namespace Analyzer

variable {σ : Type} [Storage σ] [LawfulStorage σ] {s : Site σ} {c : Contents} {job : Job}

open LawfulStorage

/-! ## What the stages store -/

/-- Bringing the files to a directory writes the record of the repository, and nothing else to the
store. -/
theorem prepare_ends (a : Analyzer) (h : InOrder s.store c) (job : Job) :
    Reporting.Ends (a.prepare job.repository job.data) s (fun _ t => ∃ kept : Repository,
      kept.id = job.repository ∧ (last s.store).Counts 0 (last t.store) ∧
        InOrder t.store (c.putRepository kept)) := by
  obtain ⟨r, kept, hid, hrun, hupdate⟩ := update_reaches h job.repository (.toStatus .processing)
  unfold prepare
  refine Reporting.Ends.bind_ok (p := fun t => t.store = (Site.onStore
    (Storage.updateRepository job.repository (.toStatus .processing)) s).2.store)
    (Reporting.ends_run ⟨hrun, rfl⟩) fun t ht => ?_
  have hends : ∃ kept : Repository, kept.id = job.repository ∧
      (last s.store).Counts 0 (last t.store) ∧ InOrder t.store (c.putRepository kept) :=
    ⟨kept, hid, ht ▸ hupdate.counts, ht ▸ hupdate.order⟩
  refine Reporting.Ends.bind (p := fun _ t' => t'.store = t.store) (Reporting.ends_run rfl)
    (fun source t' ht' => Reporting.ends_run ?_) fun e t' ht' => ?_
  · change ∃ kept : Repository, kept.id = job.repository ∧
      (last s.store).Counts 0 (last t'.store) ∧ InOrder t'.store (c.putRepository kept)
    rwa [ht']
  · rwa [ht']

/-- The files that are stored are the records of those that were found. -/
theorem placeFiles_ends (a : Analyzer) (h : InOrder s.store c) (repository : String)
    (found : Discovered) (hsizes : ∀ f ∈ found.files, FitsColumn f.size)
    (hroom : (last s.store).Room (a.idsFor repository s.disk found)) :
    Reporting.Ends (a.placeFiles repository found) s (fun r _ => ∀ stored, r = .ok stored →
      stored.map (·.toNewFile) = FoundFile.records repository s.disk found.files ∧
        (stored.map (·.id)).Nodup) := by
  obtain ⟨s₁, hrun, hcounts, hkeeps⟩ := clearFiles repository h.keeps h.whole
  have horder : InOrder s₁ (c.clear repository) := h.clear hkeeps
  unfold placeFiles
  refine Reporting.Ends.bind_ok (a := (c.filesOf repository).length)
    (p := fun t => t = { s with store := s₁ })
    (Reporting.ends_run (by simp [Site.onStore, hrun])) ?_
  rintro _ rfl
  have hfits : ∀ f ∈ FoundFile.records repository s.disk found.files, f.Fits := by
    intro f hf
    obtain ⟨-, x, hx, hsize⟩ := FoundFile.of_mem_records hf
    rw [NewFile.Fits, hsize]
    exact hsizes x hx
  refine (a.storeFiles_stored (s := { s with store := s₁ }) horder repository found.files hfits
    ((hroom.still hcounts).mono (Nat.le_add_right _ _))).mono ?_
  rintro r t ⟨stored, hstored⟩ xs rfl
  obtain ⟨rfl, hrecords⟩ := hstored.answered xs rfl
  exact ⟨hrecords, hstored.distinct⟩

/-- The totals of what the analysis finds can be kept with the record of the repository. -/
def TotalsFit (a : Analyzer) (job : Job) (before : Disk) : Prop :=
  ∀ disk found, a.Finds job before disk found →
    found.files.length < Text.wordSize 63 ∧ FitsColumn found.totals.size

theorem totals_of_discover {settings : DiscoverySettings} {root : String} {d : Disk}
    {found : Discovered} (h : discover settings root d = .ok found) :
    found.totals = .ofFiles found.files := by
  unfold discover at h
  split at h
  · rw [← Except.ok.inj h]
    rfl
  · cases h

/-- The record with the totals of what was found can be read back unchanged. -/
theorem fits_completion {found : Discovered} (htotals : found.totals = .ofFiles found.files)
    (hcount : found.files.length < Text.wordSize 63) (hsize : FitsColumn found.totals.size)
    (r : Repository) (path : String) :
    (r.apply (completion path found.totals)).Fits ∧
      (r.apply (completion path found.totals)).totalFiles.toNat = found.files.length := by
  rw [DiscoveryTotals.ofFiles_eq] at htotals
  have hsmall : found.files.length < UInt64.size := Nat.lt_trans hcount (by decide)
  have hfiles : found.totals.files.toNat = found.files.length := by
    rw [htotals]
    exact UInt64.toNat_ofNat_of_lt' hsmall
  refine ⟨⟨?_, hsize, ?_⟩, hfiles⟩
  · change found.totals.files.toNat < Text.wordSize 63
    rwa [hfiles]
  · change (found.totals.languages.map (·.1)).Nodup
    rw [htotals, Breakdown.ofLanguages_eq, Breakdown.ofCounts, List.map_map]
    exact (List.map_id _).symm ▸ nodup_eraseDups _

/-- After an analysis that goes through, the record of the repository has the number of the files
that were found. -/
theorem survey_records (a : Analyzer) (h : InOrder s.store c) (hspace : a.HasSpace job s)
    (fits : a.TotalsFit job s.disk) :
    Reporting.Ends (a.survey job.repository job.data) s (fun res t => ∀ r, res = .ok r →
      ∃ (disk : Disk) (found : Discovered) (kept : Repository), a.Finds job s.disk disk found ∧
        Storage.repository job.repository t.store = (.ok (some kept), t.store) ∧
        kept.totalFiles.toNat = found.files.length) := by
  unfold survey
  refine a.find_ends h job ?_ fun e t c' _ _ r hr => nomatch hr
  intro path found disk s₁ kept hfinds _ hupdate
  refine a.replace_ends (s := { s₁ with disk := disk }) hupdate.order job.repository found
    (hspace.sizes disk found hfinds) ((hspace.ids disk found hfinds).still hupdate.counts) ?_ ?_
  · intro s₂ c₂ stored _ horder _
    obtain ⟨source, root, -, -, hfound⟩ := id hfinds
    obtain ⟨hcount, hsize⟩ := fits disk found hfinds
    obtain ⟨hfits, hfiles⟩ := fits_completion (totals_of_discover hfound) hcount hsize
      ((c₂.repositoryOf job.repository).getD (Repository.fresh job.repository)) path
    obtain ⟨kept', s₃, hrun, hid, hsame, -, hkeeps⟩ :=
      updateRepository job.repository (completion path found.totals) horder.keeps
    obtain rfl := hsame hfits
    refine Reporting.ends_run fun r _ => ⟨disk, found,
      c₂.updated job.repository (completion path found.totals), hfinds, ?_, hfiles⟩
    have hasked := LawfulStorage.repository job.repository hkeeps
    rw [Contents.repositoryOf_putRepository, if_pos hid] at hasked
    simpa only [Site.onStore, hrun] using hasked
  · exact fun e t c' _ _ r hr => nomatch hr

/-- What is stored of a repository matters to the totals only by its records. -/
theorem Tells.congr {r : Registry} {found : Discovered} {stored stored' : List StoredFile}
    {reports : List Report} (h : Tells r found stored reports)
    (hsame : stored.map (·.toNewFile) = stored'.map (·.toNewFile)) :
    Tells r found stored' reports := by
  obtain ⟨hlength, htotals⟩ := Registry.ofFiles_readable (r := r) hsame
  have hpersisted : stored.length = stored'.length := by simpa using congrArg List.length hsame
  have hnil : r.readable stored = [] ↔ r.readable stored' = [] := by
    rw [← List.length_eq_zero_iff, hlength, List.length_eq_zero_iff]
  refine ⟨h.clear, h.discovered, hpersisted ▸ h.persisted, fun hne => ?_, fun hnone => ?_⟩
  · rw [← htotals]
    exact h.read (mt hnil.1 hne)
  · exact h.unread (hnil.2 hnone)

/-- The reports of an analysis that completes tell what the store then has of the repository. -/
theorem handler_tells (a : Analyzer) (h : InOrder s.store c) (hspace : a.HasSpace job s)
    (fits : a.TotalsFit job s.disk) (hdone : (a.handler job s).1.outcome = .succeeded) :
    ∃ (records : List NewFile) (found : Discovered) (stored : List StoredFile) (kept : Repository),
      Answers a.registry job.repository records (a.handler job s).2.store stored ∧
      (Storage.repository job.repository (a.handler job s).2.store).1 = .ok (some kept) ∧
      kept.totalFiles.toNat = found.files.length ∧
      Tells a.registry found stored (a.handler job s).1.reports := by
  rcases a.handler_cases job s with ⟨r, hr, -, hstate⟩ | ⟨e, -, hfailed, -⟩
  swap
  · rw [hfailed] at hdone
    cases hdone
  rw [hstate, a.reports_handler]
  obtain ⟨c', hcomes⟩ := a.survey_ends h hspace
  obtain ⟨found, stored, hfinds, hreplaced⟩ := hcomes.replaced r hr
  obtain ⟨disk, found', kept, hfinds', hkept, hcount⟩ := a.survey_records h hspace fits r hr
  obtain ⟨rfl, rfl⟩ := hfinds.unique hfinds'
  have hnew : ∀ f ∈ FoundFile.records job.repository
      (a.survey job.repository job.data s).state.disk found'.files,
      f.repository = job.repository := fun f hf => (FoundFile.of_mem_records hf).1
  refine ⟨_, found', stored, kept, hreplaced.answers hcomes.order hnew, congrArg Prod.fst hkept,
    hcount, ?_⟩
  -- the files whose facts were stored have the records of those that the store answers with
  obtain ⟨path, found₁, stored₁, hpath, hfound₁, hplaced, htells⟩ := a.survey_tells hr
  obtain ⟨before, -, hcounts, hprepared⟩ := a.prepare_ends h job
  obtain ⟨source, hsource, hmaterialized⟩ := (a.prepare_goes job s).2 path hpath
  have hfinds₁ : a.Finds job s.disk (a.prepare job.repository job.data s).state.disk found₁ :=
    ⟨source, path, hsource, hmaterialized, hfound₁⟩
  obtain ⟨hrecords, hdistinct⟩ := a.placeFiles_ends hprepared job.repository found₁
    (hspace.sizes _ _ hfinds₁) ((hspace.ids _ _ hfinds₁).still hcounts) stored₁ hplaced
  obtain ⟨hdisk, rfl⟩ := hfinds.unique hfinds₁
  refine (htells hdistinct).congr (hrecords.trans ?_)
  rw [hreplaced.records, hdisk]

end Analyzer

/-! ## The data of a completed job -/

namespace Queue

variable {σ : Type} {settings : QueueSettings} {past later : List (Passage σ)}
  {p : Passage σ} {q : Queue σ} {job j : Job}

/-- A job that has ended shows the outcome of the one handler that worked on it. -/
theorem Run.shows_of_ended {shared : σ} {handle : Handler σ}
    (h : Run settings shared (past ++ p :: later) q) (hlookup : p.lookup? = some job)
    (found : registered? past job.type = some handle) (hj : j ∈ q.table.jobs) (hid : j.id = job.id)
    (ended : j.status.isTerminal = true) : (handle job p.before.shared).1.outcome.Shows j := by
  have hfated : Fated (past ++ p :: later) job (handle job p.before.shared).1.outcome :=
    ⟨past, p, later, rfl, hlookup, by rw [found]; rfl⟩
  rcases h.faithful.ended j hj ended with hwithdrawn | ⟨job', o, hid', hfated', hshows⟩
  · exact absurd (hid ▸ hwithdrawn) (h.dispatched hlookup).kept
  · obtain ⟨-, rfl⟩ := fated_unique h.faithful.once hfated' hfated (hid'.trans hid)
    exact hshows

variable [Storage σ]

/-- In the steps nobody changes what the store answers about the repository. -/
def Undisturbed (repository : String) (steps : List (Passage (Site σ))) : Prop :=
  ∀ p ∈ steps, SameAnswers repository p.before.shared.store p.after.shared.store ∧
    (Storage.repository repository p.after.shared.store).1 =
      (Storage.repository repository p.before.shared.store).1

theorem Run.answers_of_undisturbed {shared : Site σ} {past later : List (Passage (Site σ))}
    {p : Passage (Site σ)} {q : Queue (Site σ)} {repository : String}
    (h : Run settings shared (past ++ p :: later) q)
    (undisturbed : Undisturbed repository later) :
    SameAnswers repository p.after.shared.store q.shared.store ∧
      (Storage.repository repository q.shared.store).1 =
        (Storage.repository repository p.after.shared.store).1 := by
  induction later using List.reverseRecOn generalizing q with
  | nil =>
    obtain rfl := h.after_last
    exact ⟨⟨rfl, rfl, rfl⟩, rfl⟩
  | append_singleton later p₁ ih =>
    rw [← List.cons_append, ← List.append_assoc] at h
    obtain ⟨hbefore, -⟩ := h.at_step
    obtain rfl := h.after_last
    obtain ⟨hsame, hrecord⟩ := ih hbefore fun p' hp' => undisturbed p' (List.mem_append_left _ hp')
    obtain ⟨hlast, hlast'⟩ := undisturbed p₁ (by simp)
    exact ⟨⟨hlast.files.trans hsame.files, hlast.facts.trans hsame.facts,
      hlast.edges.trans hsame.edges⟩, hlast'.trans hrecord⟩

end Queue

open Queue LawfulStorage Analyzer in
/-- The totals in the data of a completed job of analysis are those of the store, whatever the
repository is, whatever the job was asked for with, and whatever the size of the batches: the files
discovered are those of the record, the files stored are those of the repository, and if a surveyor
takes any of these, the files that were read, the facts and the edges are as many as are taken and
stored. Where no surveyor takes any, there are no facts and edges of the repository, and nothing is
told of that: under the three keys the data have what the job was asked for with. Callers must not
write under the keys of the totals, nor change what is stored of the repository until the job has
ended, and the store must have room for what is found. -/
theorem job_totals_match_store {σ : Type} [Storage σ] [LawfulStorage σ] {settings : QueueSettings}
    {shared : Site σ} {past later : List (Passage (Site σ))} {p : Passage (Site σ)}
    {q : Queue (Site σ)} {c : Contents} {job j : Job} {a : Analyzer}
    (h : Run settings shared (past ++ p :: later) q) (hlookup : p.lookup? = some job)
    (analysis : registered? past job.type = some a.handler)
    (order : InOrder p.before.shared.store c) (space : a.HasSpace job p.before.shared)
    (fits : a.TotalsFit job p.before.shared.disk)
    (unsaid : ∀ key ∈ totalKeys, Unsaid (past ++ p :: later) job.id key)
    (undisturbed : Undisturbed job.repository later) (hj : j ∈ q.table.jobs) (hid : j.id = job.id)
    (completed : j.status = .completed) :
    ∃ record stored facts edges,
      (Storage.repository job.repository q.shared.store).1 = .ok (some record) ∧
      (Storage.files job.repository q.shared.store).1 = .ok stored ∧
      (Storage.facts job.repository q.shared.store).1 = .ok facts ∧
      (Storage.edges job.repository q.shared.store).1 = .ok edges ∧
      (∃ entries, j.data = .object entries) ∧
      j.data.get? "files_discovered" = some (Json.nat record.totalFiles.toNat) ∧
      j.data.get? "files_persisted" = some (Json.nat stored.length) ∧
      (a.registry.readable stored ≠ [] →
        j.data.get? "files_parsed" = some (Json.nat (a.registry.readable stored).length) ∧
        j.data.get? "facts_persisted" = some (Json.nat facts.length) ∧
        j.data.get? "edges_persisted" = some (Json.nat edges.length)) ∧
      (a.registry.readable stored = [] → facts = [] ∧ edges = [] ∧
        ∀ key ∈ factKeys, j.data.get? key = job.data.get? key) := by
  have hended : j.status.isTerminal = true := by rw [completed]; rfl
  have hshows := h.shows_of_ended hlookup analysis hj hid hended
  have hdone : (a.handler job p.before.shared).1.outcome = .succeeded := by
    generalize (a.handler job p.before.shared).1.outcome = o at hshows
    rcases o with _ | f | (_ | text)
    · rfl
    all_goals exact absurd (completed.symm.trans hshows.1) (by decide)
  obtain ⟨records, found, stored, kept, hanswers, hkept, hcount, htells⟩ :=
    a.handler_tells order space fits hdone
  obtain ⟨facts, edges, hfacts, hedges, htotals⟩ := hanswers.totals
  -- the store answers at the end as it did behind the analysis
  obtain ⟨-, hshared, -⟩ : p.Hands job (some a.handler) := analysis ▸ (h.dispatched hlookup).hands
  obtain ⟨hsame, hrecord⟩ := h.answers_of_undisturbed undisturbed
  rw [hshared] at hsame hrecord
  have hdata : ∀ key ∈ totalKeys, j.data.get? key =
      (saidUnder key (a.handler job p.before.shared).1.reports).getLast?.or (job.data.get? key) :=
    fun key hkey => h.data_of_ended hlookup analysis hj hid (by rw [completed]; decide)
      (unsaid key hkey) (htells.clear key)
  have hdiscovered : j.data.get? "files_discovered" = some (Json.nat found.files.length) := by
    rw [hdata _ (by decide), htells.discovered]
    rfl
  refine ⟨kept, stored, facts, edges, hrecord.trans hkept,
    hsame.files.trans (congrArg Prod.fst hanswers.files),
    hsame.facts.trans (congrArg Prod.fst hfacts), hsame.edges.trans (congrArg Prod.fst hedges),
    ?_, hcount ▸ hdiscovered, ?_, fun hsome => ?_, fun hnone => ?_⟩
  · cases hobject : j.data with
    | object entries => exact ⟨entries, rfl⟩
    | _ => rw [hobject] at hdiscovered; cases hdiscovered
  · rw [hdata _ (by decide), htells.persisted]
    rfl
  · obtain ⟨hread, hreadFacts, hreadEdges⟩ := htells.read hsome
    rw [htotals] at hread hreadFacts hreadEdges
    rw [hdata _ (by decide), hdata _ (by decide), hdata _ (by decide), hread, hreadFacts, hreadEdges]
    exact ⟨rfl, rfl, rfl⟩
  · have hzero : (0 : Nat) = facts.length ∧ 0 = edges.length := by
      rw [hnone] at htotals
      exact ⟨congrArg FactTotals.facts htotals, congrArg FactTotals.edges htotals⟩
    refine ⟨List.length_eq_zero_iff.1 hzero.1.symm, List.length_eq_zero_iff.1 hzero.2.symm,
      fun key hkey => ?_⟩
    rw [hdata key (List.mem_cons_of_mem _ (List.mem_cons_of_mem _ hkey)), htells.unread hnone key hkey]
    rfl

namespace Small

open Queue

/-- A disk with a text that the surveyor does not take. -/
def notes : Disk := ⟨.directory [("a.md", .file (.bytes "x".toUTF8))], []⟩

/-- The record of that. -/
def note : NewFile where
  repository := "r"
  path := "a.md"
  name := "a.md"
  extension := "md"
  language := some "markdown"
  size := 1
  content := some "x"
  contentHash := some (Text.digest "x")

/-- Nothing is stored yet. -/
def newSite (d : Disk) : Site MemoryStore := ⟨d, MemoryStore.empty⟩

/-- Up to where a task looks for the handler of a job that analyses the directory. -/
def untilAnalysis : List (Move (Site MemoryStore)) :=
  [.start, .register analysisType analyzer.handler,
    .enqueue "1" ⟨analysisType, "r", directoryPayload "/"⟩ ⟨0⟩,
    .drainOn ⟨1⟩, .drainOn ⟨1⟩, .drainOn ⟨1⟩, .drainOn ⟨1⟩]

/-- The steps of the task from there to the end of the job. -/
def untilEnd : List (Move (Site MemoryStore)) := List.replicate 12 (.advance 0 ⟨2⟩)

section OnDisk

variable (d : Disk)

theorem reachesAnalysis :
    (walk? untilAnalysis (fresh oneSlot (newSite d))).isSome = true := rfl

def beforeAnalysis : List (Passage (Site MemoryStore)) × Queue (Site MemoryStore) :=
  (walk? untilAnalysis (fresh oneSlot (newSite d))).get (reachesAnalysis d)

theorem analyses : ((beforeAnalysis d).2.step (.advance 0 ⟨2⟩)).isSome = true := rfl

/-- The step in which the handler works. -/
def analysisOf : Passage (Site MemoryStore) :=
  let stepped := ((beforeAnalysis d).2.step (.advance 0 ⟨2⟩)).get (analyses d)
  ⟨(beforeAnalysis d).2, .advance 0 ⟨2⟩, stepped.1, stepped.2⟩

variable {d}

theorem run_analysis {later : List (Passage (Site MemoryStore))} {q : Queue (Site MemoryStore)}
    (walked : walk? untilEnd (analysisOf d).after = some (later, q)) :
    Run oneSlot (newSite d) ((beforeAnalysis d).1 ++ analysisOf d :: later) q := by
  have hbefore : Run oneSlot (newSite d) (beforeAnalysis d).1 (beforeAnalysis d).2 :=
    Run.fresh.walk (Option.some_get (reachesAnalysis d)).symm
  have hanalysis : Run oneSlot _ ((beforeAnalysis d).1 ++ [analysisOf d]) (analysisOf d).after :=
    hbefore.step (Option.some_get (analyses d)).symm
  rw [List.append_cons]
  exact hanalysis.walk walked

/-- Nobody but the task reports in the run. -/
theorem unsaid_analysis {later : List (Passage (Site MemoryStore))} {q : Queue (Site MemoryStore)}
    (walked : walk? untilEnd (analysisOf d).after = some (later, q)) (id key : String) :
    Unsaid ((beforeAnalysis d).1 ++ analysisOf d :: later) id key := by
  intro p hp value extra hmove
  have hmoves : ((beforeAnalysis d).1 ++ analysisOf d :: later).map (·.move) =
      untilAnalysis ++ .advance 0 ⟨2⟩ :: untilEnd := by
    rw [List.map_append, List.map_cons, moves_of_walk walked]
    rfl
  have hmem := List.mem_map_of_mem (f := Passage.move) hp
  rw [hmoves, hmove] at hmem
  simp [untilAnalysis, untilEnd] at hmem

end OnDisk

/-- The rest of the run on the two files: it leaves the store alone, and ends with the job completed
and one file stored. -/
theorem ends_disk : ∃ later q, walk? untilEnd (analysisOf disk).after = some (later, q) ∧
    (∀ p ∈ later, p.after.shared.store = p.before.shared.store) ∧
    (∃ j ∈ q.table.jobs, j.id = "1" ∧ j.status = .completed) ∧
    (Storage.files "r" q.shared.store).1 = .ok [⟨record, 1⟩] := by
  have h : (walk? untilEnd (analysisOf disk).after).any (fun r => decide
      ((∀ p ∈ r.1, p.after.shared.store = p.before.shared.store) ∧
      (∃ j ∈ r.2.table.jobs, j.id = "1" ∧ j.status = .completed) ∧
      (Storage.files "r" r.2.shared.store).1 = .ok [⟨record, 1⟩])) = true := by decide +kernel
  obtain ⟨⟨later, q⟩, walked, ends⟩ := (Option.any_eq_true _ _).1 h
  exact ⟨later, q, walked, of_decide_eq_true ends⟩

/-- The job that is handed to the handler. -/
def begun : Job := job.begun ⟨1⟩

theorem totalsFit : analyzer.TotalsFit begun disk := by
  intro d x hx
  have hfound : analyzer.Finds job disk d x := hx
  obtain ⟨rfl, rfl⟩ := finds.unique hfound
  decide +kernel

end Small

open Queue in
/-- Of the two files of the small analysis one is stored and taken, with one fact. -/
theorem job_totals_match_store_of_two_files :
    ∃ run q, Run oneSlot (Small.newSite Small.disk) run q ∧
      ∃ j ∈ q.table.jobs, j.status = .completed ∧ ∃ stored facts edges,
        (Storage.files "r" q.shared.store).1 = .ok stored ∧
        (Storage.facts "r" q.shared.store).1 = .ok facts ∧
        (Storage.edges "r" q.shared.store).1 = .ok edges ∧
        stored = [⟨Small.record, 1⟩] ∧
        j.data.get? "files_persisted" = some (Json.nat stored.length) ∧
        j.data.get? "facts_persisted" = some (Json.nat facts.length) ∧
        j.data.get? "edges_persisted" = some (Json.nat edges.length) := by
  obtain ⟨later, q, walked, hkept, hjobs, hfiles⟩ := Small.ends_disk
  have hempty : LeftByAnalyses MemoryStore.empty := .empty MemoryStore.keeps_empty
  obtain ⟨c, order⟩ := hempty.inOrder
  have hlookup : (Small.analysisOf Small.disk).lookup? = some Small.begun := rfl
  obtain ⟨j, hj, hid, completed⟩ := hjobs
  obtain ⟨record, stored, facts, edges, -, hstored, hfacts, hedges, -, -, hpersisted, hread, -⟩ :=
    job_totals_match_store (Small.run_analysis walked) hlookup rfl order
      ⟨Small.hasSpace.sizes, Small.hasSpace.ids⟩ Small.totalsFit
      (fun key _ => Small.unsaid_analysis walked _ key)
      (fun p hp => by rw [hkept p hp]; exact ⟨⟨rfl, rfl, rfl⟩, rfl⟩) hj hid completed
  obtain rfl := Except.ok.inj (hstored.symm.trans hfiles)
  obtain ⟨-, hfactsRead, hedgesRead⟩ := hread (by decide +kernel)
  exact ⟨_, _, Small.run_analysis walked, j, hj, completed, _, facts, edges, hstored, hfacts, hedges,
    rfl, hpersisted, hfactsRead, hedgesRead⟩

open Queue in
/-- Where the only file is one that no surveyor takes, the job completes with that file stored, and
nothing is told of facts and edges, though there are none in the store. -/
theorem not_told_without_readable_files :
    ∃ run q, Run oneSlot (Small.newSite Small.notes) run q ∧
      (Storage.files "r" q.shared.store).1 = .ok [⟨Small.note, 1⟩] ∧
      Small.analyzer.registry.readable [⟨Small.note, 1⟩] = [] ∧
      ∃ j ∈ q.table.jobs, j.status = .completed ∧
        (Storage.facts "r" q.shared.store).1 = .ok [] ∧
        (Storage.edges "r" q.shared.store).1 = .ok [] ∧
        ∀ key ∈ Analyzer.factKeys, j.data.get? key = none := by
  have h : (walk? Small.untilEnd (Small.analysisOf Small.notes).after).any (fun r => decide
      ((Storage.files "r" r.2.shared.store).1 = .ok [⟨Small.note, 1⟩] ∧
      Small.analyzer.registry.readable [⟨Small.note, 1⟩] = [] ∧
      ∃ j ∈ r.2.table.jobs, j.status = .completed ∧
        (Storage.facts "r" r.2.shared.store).1 = .ok [] ∧
        (Storage.edges "r" r.2.shared.store).1 = .ok [] ∧
        ∀ key ∈ Analyzer.factKeys, j.data.get? key = none)) = true := by decide +kernel
  obtain ⟨⟨later, q⟩, walked, ends⟩ := (Option.any_eq_true _ _).1 h
  exact ⟨_, q, Small.run_analysis walked, of_decide_eq_true ends⟩

end CodeSurvey
