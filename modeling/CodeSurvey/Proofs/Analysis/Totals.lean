-- The totals that an analysis reports. When it goes through, what it said last under
-- each of their keys is the number of files that it found and stored, and, if a surveyor
-- takes any of these, the numbers of files that were read and of facts and edges that
-- were told of them; otherwise it says nothing about those.
import CodeSurvey.Proofs.Analysis.Progress

namespace CodeSurvey

/-! ## What is counted of files -/

/-- What reading the file for facts comes to where the store does not refuse them. -/
def Registry.counted (r : Registry) (f : StoredFile) : FileOutcome :=
  ⟨(r.factsOf f.toNewFile).length, (r.edgesOf f).length, none⟩

/-- The stored files that some surveyor takes. -/
def Registry.readable (r : Registry) (stored : List StoredFile) : List StoredFile :=
  stored.filter (fun f => r.supports f.extension)

/-- The totals of files of which the store refuses nothing. -/
def FactTotals.ofFiles (r : Registry) (files : List StoredFile) : FactTotals :=
  (files.map r.counted).foldl FactTotals.add .zero

theorem FactTotals.foldl_counted (r : Registry) (files : List StoredFile) (t : FactTotals) :
    (files.map r.counted).foldl FactTotals.add t = ⟨t.files + files.length,
      t.facts + (files.map (fun f => (r.factsOf f.toNewFile).length)).sum,
      t.edges + (files.map (fun f => (r.edgesOf f).length)).sum⟩ := by
  induction files generalizing t with
  | nil => rfl
  | cons f rest ih =>
    rw [List.map_cons, List.foldl_cons, ih]
    simp only [add, Registry.counted, List.length_cons, List.map_cons, List.sum_cons, mk.injEq]
    omega

theorem FactTotals.ofFiles_eq (r : Registry) (files : List StoredFile) :
    ofFiles r files = ⟨files.length, (files.map (fun f => (r.factsOf f.toNewFile).length)).sum,
      (files.map (fun f => (r.edgesOf f).length)).sum⟩ := by
  rw [ofFiles, foldl_counted]
  simp [zero]

theorem getLast?_of_cons {α : Type} {x y : α} {xs : List α} (h : (x :: xs).getLast? = some y)
    (hne : xs ≠ []) : xs.getLast? = some y := by
  obtain ⟨z, zs, rfl⟩ := List.exists_cons_of_ne_nil hne
  rwa [List.getLast?_cons_cons] at h

namespace Analyzer

/-- Something is reported when there are batches. -/
theorem reports_ne_nil {α β : Type} {course : Course σ α} {batches : List (List β)}
    {lo hi : Int64} {done all : Nat} (hne : batches ≠ [])
    (h : course.values = (tallies done batches).map (scaled lo hi · all)) : course.reports ≠ [] := by
  obtain ⟨batch, rest, rfl⟩ := List.exists_cons_of_ne_nil hne
  intro hnil
  rw [Course.values, hnil] at h
  cases h

variable {σ : Type} [Storage σ] {r : Registry} {s : Site σ}

/-! ## Counting facts -/

theorem storeFacts_counted {f : StoredFile} (h : (storeFacts r f s).1.failure = none) :
    (storeFacts r f s).1 = r.counted f := by
  unfold storeFacts at h ⊢
  rw [Registry.factsOf?_eq] at h ⊢
  cases htold : r.told? f.toNewFile with
  | none => simp [htold, Registry.counted, Registry.factsOf, Registry.edgesOf, FileOutcome.nothing]
  | some told =>
    simp only [htold, Option.isSome_some, if_true] at h ⊢
    split at h
    · rfl
    · cases h

theorem ids_storeAllFacts (r : Registry) (files : List StoredFile) (s : Site σ) :
    (storeAllFacts r files s).1.map (·.1) = files.map (·.id) := by
  induction files generalizing s with
  | nil => rfl
  | cons f rest ih => exact congrArg (f.id :: ·) (ih _)

theorem of_mem_storeAllFacts {files : List StoredFile} {o : Int64 × FileOutcome}
    (h : o ∈ (storeAllFacts r files s).1) :
    ∃ f ∈ files, o.1 = f.id ∧ (o.2.failure = none → o.2 = r.counted f) := by
  induction files generalizing s with
  | nil => cases h
  | cons f rest ih =>
    rcases List.mem_cons.1 h with rfl | h
    · exact ⟨f, .head _, rfl, storeFacts_counted⟩
    · obtain ⟨g, hg, hrest⟩ := ih h
      exact ⟨g, .tail _ hg, hrest⟩

/-- Where nothing of a batch is refused, the outcomes are what is counted of the files. -/
theorem factsBatch_counted (a : Analyzer) {files : List StoredFile} {outcomes : List FileOutcome}
    {s' : Site σ} (hdistinct : (files.map (·.id)).Nodup)
    (hrun : a.factsBatch files s = (.ok outcomes, s')) (hok : ∀ o ∈ outcomes, o.failure = none) :
    outcomes = files.map a.registry.counted := by
  obtain rfl := Except.ok.inj (Prod.mk.inj hrun).1
  refine List.map_congr_left fun f hf => ?_
  have hokf := hok _ (List.mem_map_of_mem hf)
  have hperm := a.order.perm files
  cases hfind : (storeAllFacts a.registry (a.order.arrange files) s).1.find? (·.1 = f.id) with
  | none =>
    have hid : f.id ∈ (storeAllFacts a.registry (a.order.arrange files) s).1.map (·.1) := by
      rw [ids_storeAllFacts]
      exact List.mem_map_of_mem (hperm.symm.subset hf)
    obtain ⟨o, ho, heq⟩ := List.mem_map.1 hid
    exact absurd heq (by simpa using List.find?_eq_none.1 hfind o ho)
  | some o =>
    rw [hfind] at hokf
    obtain ⟨g, hg, hid, hcounted⟩ := of_mem_storeAllFacts (List.mem_of_find?_eq_some hfind)
    have hsame : o.1 = f.id := by simpa using List.find?_some hfind
    obtain rfl := List.inj_on_of_nodup_map hdistinct (hperm.subset hg) hf (hid.symm.trans hsame)
    exact hcounted hokf

/-- Where nothing is refused at all, the last report tells the totals of all files. -/
theorem factsBatches_counted (a : Analyzer) (all done : Nat) (t : FactTotals)
    (failure : Option Failure) (batches : List (List StoredFile)) (s : Site σ)
    (hdistinct : (batches.flatten.map (·.id)).Nodup)
    (hok : (a.factsBatches all done t failure batches s).result = .ok none) (value : Int64) :
    failure = none ∧ ∃ last,
      (⟨value, some t.told⟩ :: (a.factsBatches all done t failure batches s).reports).getLast? =
        some ⟨last, some ((batches.flatten.map a.registry.counted).foldl FactTotals.add t).told⟩ := by
  induction batches generalizing done t failure s value with
  | nil => exact ⟨Except.ok.inj hok, value, rfl⟩
  | cons batch rest ih =>
    obtain ⟨outcomes, s', hrun, -, hcourse⟩ := a.factsBatches_cons all done t failure batch rest s
    rw [hcourse] at hok ⊢
    rw [List.flatten_cons, List.map_append, List.nodup_append] at hdistinct
    obtain ⟨hnone, last, hlast⟩ := ih (done + batch.length) (outcomes.foldl FactTotals.add t)
      (failure.or (outcomes.findSome? (·.failure))) s' hdistinct.2.1 hok
      (scaled filesStored factsStored (done + batch.length) all)
    rw [Option.or_eq_none_iff, List.findSome?_eq_none_iff] at hnone
    have hcounted := a.factsBatch_counted hdistinct.1 hrun hnone.2
    refine ⟨hnone.1, last, ?_⟩
    rw [List.getLast?_cons_cons, hlast, hcounted, List.flatten_cons, List.map_append,
      List.foldl_append]

/-- The stage on the facts tells the totals of the files that some surveyor takes, if there are any,
and nothing else. -/
theorem storeFactsOf_counted (a : Analyzer) {stored : List StoredFile}
    (hdistinct : (stored.map (·.id)).Nodup) (hok : (a.storeFactsOf stored s).result = .ok ()) :
    (a.registry.readable stored = [] →
      (a.storeFactsOf stored s).reports = [⟨factsStored, none⟩]) ∧
    (a.registry.readable stored ≠ [] → ∃ last, (a.storeFactsOf stored s).reports.getLast? =
      some ⟨last, some (FactTotals.ofFiles a.registry (a.registry.readable stored)).told⟩) := by
  refine ⟨fun hnil => by rw [a.storeFactsOf_of_nil hnil], fun hne => ?_⟩
  unfold Registry.readable at hne ⊢
  have hids := hdistinct.sublist ((List.filter_sublist
    (p := fun f => a.registry.supports f.extension)).map StoredFile.id)
  obtain ⟨failed, hresult, hcourse⟩ := a.storeFactsOf_eq stored s hne
  rw [hcourse] at hok ⊢
  generalize stored.filter (fun f => a.registry.supports f.extension) = readable at *
  cases failed with
  | some f => cases hok
  | none =>
    have hvalues := (a.values_factsBatches readable.length 0 .zero none
      (batches a.batchSize readable) s).2
    obtain ⟨-, last, hlast⟩ := a.factsBatches_counted readable.length 0 .zero none
      (batches a.batchSize readable) s (by rwa [flatten_batches]) hresult 0
    rw [flatten_batches] at hlast
    exact ⟨last, getLast?_of_cons hlast (reports_ne_nil (batches_ne_nil hne) hvalues)⟩

/-! ## Counting files -/

theorem storeBatches_counted (repository : String) (all done count : Nat)
    (batches : List (List FoundFile)) {stored : List StoredFile} (s : Site σ)
    (hok : (storeBatches repository all done count batches s).result = .ok stored) (value : Int64) :
    ∃ last, (⟨value, some (.record [("files_persisted", Json.nat count)])⟩ ::
        (storeBatches repository all done count batches s).reports).getLast? =
      some ⟨last, some (.record [("files_persisted", Json.nat (count + stored.length))])⟩ := by
  induction batches generalizing done count stored s value with
  | nil =>
    obtain rfl := Except.ok.inj hok
    exact ⟨value, rfl⟩
  | cons batch rest ih =>
    cases hbatch : storeBatch repository batch s with
    | mk r s' =>
      cases r with
      | error e =>
        rw [storeBatches_of_error hbatch] at hok
        cases hok
      | ok new =>
        rw [storeBatches_of_ok hbatch] at hok ⊢
        obtain ⟨others, hothers, rfl⟩ := ok_of_map hok
        obtain ⟨last, hlast⟩ := ih (done + batch.length) (count + new.length) s' hothers
          (scaled discovered filesStored (done + batch.length) all)
        refine ⟨last, ?_⟩
        rw [List.getLast?_cons_cons, hlast, List.length_append, Nat.add_assoc]

/-- The stage on the files tells how many are stored. -/
theorem storeFiles_counted (a : Analyzer) (repository : String) (files : List FoundFile)
    {stored : List StoredFile} (s : Site σ)
    (hok : (a.storeFiles repository files s).result = .ok stored) :
    ∃ last, (a.storeFiles repository files s).reports.getLast? =
      some ⟨last, some (.record [("files_persisted", Json.nat stored.length)])⟩ := by
  unfold storeFiles at hok ⊢
  split
  · rename_i hnil
    rw [if_pos hnil] at hok
    obtain rfl := Except.ok.inj hok
    exact ⟨_, rfl⟩
  · rename_i hne
    rw [if_neg hne] at hok
    have hvalues := (values_storeBatches repository files.length 0 0 (batches a.batchSize files)
      s).2 stored hok
    obtain ⟨last, hlast⟩ := storeBatches_counted repository files.length 0 0
      (batches a.batchSize files) s hok 0
    rw [Nat.zero_add] at hlast
    exact ⟨last, getLast?_of_cons hlast (reports_ne_nil (batches_ne_nil hne) hvalues)⟩

/-! ## What each stage may say -/

theorem extras_storeBatches (repository : String) (all done count : Nat)
    (batches : List (List FoundFile)) (s : Site σ) :
    ∀ x ∈ (storeBatches repository all done count batches s).reports,
      ∃ n, x.extra = some (.record [("files_persisted", Json.nat n)]) := by
  induction batches generalizing done count s with
  | nil => exact fun x hx => nomatch hx
  | cons batch rest ih =>
    cases hbatch : storeBatch repository batch s with
    | mk r s' =>
      cases r with
      | error e =>
        rw [storeBatches_of_error hbatch]
        exact fun x hx => nomatch hx
      | ok new =>
        rw [storeBatches_of_ok hbatch]
        intro x hx
        rcases List.mem_cons.1 hx with rfl | hx
        · exact ⟨_, rfl⟩
        · exact ih _ _ _ x hx

theorem extras_storeFiles (a : Analyzer) (repository : String) (files : List FoundFile)
    (s : Site σ) : ∀ x ∈ (a.storeFiles repository files s).reports,
      ∃ n, x.extra = some (.record [("files_persisted", Json.nat n)]) := by
  unfold storeFiles
  split
  · intro x hx
    obtain rfl := List.mem_singleton.1 hx
    exact ⟨0, rfl⟩
  · exact extras_storeBatches repository _ _ _ _ s

theorem extras_factsBatches (a : Analyzer) (all done : Nat) (t : FactTotals)
    (failure : Option Failure) (batches : List (List StoredFile)) (s : Site σ) :
    ∀ x ∈ (a.factsBatches all done t failure batches s).reports,
      ∃ t : FactTotals, x.extra = some t.told := by
  induction batches generalizing done t failure s with
  | nil => exact fun x hx => nomatch hx
  | cons batch rest ih =>
    obtain ⟨outcomes, s', -, -, hcourse⟩ := a.factsBatches_cons all done t failure batch rest s
    rw [hcourse]
    intro x hx
    rcases List.mem_cons.1 hx with rfl | hx
    · exact ⟨_, rfl⟩
    · exact ih _ _ _ _ x hx

theorem extras_storeFactsOf (a : Analyzer) (stored : List StoredFile) (s : Site σ) :
    ∀ x ∈ (a.storeFactsOf stored s).reports,
      ∀ e, x.extra = some e → ∃ t : FactTotals, e = t.told := by
  intro x hx e he
  by_cases hnil : stored.filter (fun f => a.registry.supports f.extension) = []
  · rw [a.storeFactsOf_of_nil hnil, List.mem_singleton] at hx
    subst hx
    cases he
  · obtain ⟨failed, -, hcourse⟩ := a.storeFactsOf_eq stored s hnil
    rw [hcourse] at hx
    obtain ⟨t, ht⟩ := a.extras_factsBatches _ _ _ _ _ s x hx
    exact ⟨t, Option.some.inj (he.symm.trans ht)⟩

end Analyzer

/-! ## What is said last -/

section Said

variable {key : String} {reports : List Report} {v e : Json}

/-- What the last report says under a key is said last. -/
theorem said_last {value : Int64} (hlast : reports.getLast? = some ⟨value, some e⟩)
    (he : e.get? key = some v) : (saidUnder key reports).getLast? = some v := by
  obtain ⟨front, rfl⟩ := List.getLast?_eq_some_iff.1 hlast
  rw [saidUnder_append, List.getLast?_append]
  simp [saidUnder, he]

theorem said_nothing (h : ∀ x ∈ reports, ∀ e, x.extra = some e → e.get? key = none) :
    saidUnder key reports = [] := by
  refine List.filterMap_eq_nil_iff.2 fun x hx => ?_
  cases hextra : x.extra with
  | none => rfl
  | some e => exact h x hx e hextra

theorem get?_record_one (name : String) (v : Json) (key : String) :
    (Json.record [(name, v)]).get? key = if name = key then some v else none :=
  Json.lookup_cons key (name, v) []

theorem isClearOn_record_one (name : String) (v : Json) (key : String) :
    (Json.record [(name, v)]).IsClearOn key := by
  have hkeys : ([(name, v)].map Prod.fst).Nodup := List.nodup_singleton name
  exact Json.isClearOn_of_nodup key hkeys

theorem FactTotals.get?_told (t : FactTotals) :
    t.told.get? "files_parsed" = some (Json.nat t.files) ∧
      t.told.get? "facts_persisted" = some (Json.nat t.facts) ∧
      t.told.get? "edges_persisted" = some (Json.nat t.edges) ∧
      t.told.get? "files_persisted" = none ∧ t.told.get? "files_discovered" = none := by
  refine ⟨?_, ?_, ?_, ?_, ?_⟩ <;> rfl

theorem FactTotals.isClearOn_told (t : FactTotals) (key : String) : t.told.IsClearOn key := by
  have hkeys : ["edges_persisted", "facts_persisted", "files_parsed"].Nodup := by decide
  exact Json.isClearOn_of_nodup key hkeys

end Said

namespace Analyzer

variable {σ : Type} [Storage σ]

/-- The stages of a survey that goes through, with what they report. -/
theorem stages_of_ok (a : Analyzer) {repository : String} {payload : Json} {s : Site σ}
    {record : Repository} (h : (a.survey repository payload s).result = .ok record) :
    let prepared := a.prepare repository payload s
    ∃ path found stored, prepared.result = .ok path ∧
      discover a.discovery path prepared.state.disk = .ok found ∧
      let placed := a.placeFiles repository found prepared.state
      placed.result = .ok stored ∧ (a.storeFactsOf stored placed.state).result = .ok () ∧
      (a.survey repository payload s).reports = prepared.reports ++
        ⟨materialized, some (.record [("storage_path", .text path)])⟩ ::
        ⟨discovered, some (.record [("files_discovered", Json.nat found.files.length)])⟩ ::
        (placed.reports ++ (a.storeFactsOf stored placed.state).reports) := by
  intro prepared
  rw [a.survey_eq] at h ⊢
  obtain ⟨path, hpath, hrest, hreports⟩ := Reporting.of_bind_ok h
  obtain ⟨_, -, hrest, hreports₁⟩ := Reporting.of_bind_ok hrest
  obtain ⟨found, hfound, hrest, hreports₂⟩ := Reporting.of_bind_ok hrest
  obtain ⟨_, -, hrest, hreports₃⟩ := Reporting.of_bind_ok hrest
  obtain ⟨stored, hplaced, hrest, hreports₄⟩ := Reporting.of_bind_ok hrest
  obtain ⟨_, hfacts, -, hreports₅⟩ := Reporting.of_bind_ok hrest
  refine ⟨path, found, stored, hpath, hfound, hplaced, hfacts, ?_⟩
  rw [hreports, hreports₁, hreports₂, hreports₃]
  refine congrArg (prepared.reports ++ _ :: _ :: ·) (hreports₄.trans ?_)
  -- the update at the end reports nothing
  exact congrArg (_ ++ ·) (hreports₅.trans (List.append_nil _))

theorem placeFiles_of_ok {a : Analyzer} {repository : String} {found : Discovered} {s : Site σ}
    {stored : List StoredFile} (h : (a.placeFiles repository found s).result = .ok stored) :
    ∃ s' : Site σ, (a.storeFiles repository found.files s').result = .ok stored ∧
      (a.placeFiles repository found s).reports = (a.storeFiles repository found.files s').reports := by
  obtain ⟨_, -, hfiles, hreports⟩ := Reporting.of_bind_ok h
  exact ⟨_, hfiles, hreports⟩

/-- The keys of what an analysis tells of facts and edges. -/
def factKeys : List String := ["files_parsed", "facts_persisted", "edges_persisted"]

/-- The keys of all totals of an analysis. -/
def totalKeys : List String := "files_discovered" :: "files_persisted" :: factKeys

/-- What the reports of an analysis that stored the files come to under each key. -/
structure Tells (r : Registry) (found : Discovered) (stored : List StoredFile)
    (reports : List Report) : Prop where
  clear : ∀ key, ∀ x ∈ reports, ∀ e, x.extra = some e → e.IsClearOn key
  discovered : (saidUnder "files_discovered" reports).getLast? = some (Json.nat found.files.length)
  persisted : (saidUnder "files_persisted" reports).getLast? = some (Json.nat stored.length)
  read : r.readable stored ≠ [] →
    let t := FactTotals.ofFiles r (r.readable stored)
    (saidUnder "files_parsed" reports).getLast? = some (Json.nat t.files) ∧
      (saidUnder "facts_persisted" reports).getLast? = some (Json.nat t.facts) ∧
      (saidUnder "edges_persisted" reports).getLast? = some (Json.nat t.edges)
  unread : r.readable stored = [] → ∀ key ∈ factKeys, saidUnder key reports = []

section Parts

variable {key : String} {r : Registry} {path : String} {found : Discovered}
  {stored : List StoredFile} {onFiles onFacts : List Report}

/-- What is reported before files are stored. -/
def firstReports (path : String) (found : Discovered) : List Report :=
  [⟨materialized, some (.record [("storage_path", .text path)])⟩,
    ⟨discovered, some (.record [("files_discovered", Json.nat found.files.length)])⟩]

theorem files_say_nothing
    (h : ∀ x ∈ onFiles, ∃ n, x.extra = some (.record [("files_persisted", Json.nat n)]))
    (hkey : key ≠ "files_persisted") : saidUnder key onFiles = [] := by
  refine said_nothing fun x hx e he => ?_
  obtain ⟨n, hn⟩ := h x hx
  obtain rfl := Option.some.inj (he.symm.trans hn)
  rw [get?_record_one, if_neg hkey.symm]

theorem facts_say_nothing (h : ∀ x ∈ onFacts, ∀ e, x.extra = some e → ∃ t : FactTotals, e = t.told)
    (hkey : ∀ t : FactTotals, t.told.get? key = none) : saidUnder key onFacts = [] := by
  refine said_nothing fun x hx e he => ?_
  obtain ⟨t, rfl⟩ := h x hx e he
  exact hkey t

theorem firstReports_say_nothing (path : String) (found : Discovered) (hkey : key ∈ factKeys) :
    key ≠ "files_persisted" ∧ saidUnder key (firstReports path found) = [] := by
  rcases List.mem_cons.1 hkey with rfl | hkey
  · exact ⟨by decide, rfl⟩
  rcases List.mem_cons.1 hkey with rfl | hkey
  · exact ⟨by decide, rfl⟩
  obtain rfl := List.mem_singleton.1 hkey
  exact ⟨by decide, rfl⟩

theorem clear_firstReports (path : String) (found : Discovered) (key : String) :
    ∀ x ∈ firstReports path found, ∀ e, x.extra = some e → e.IsClearOn key := by
  intro x hx e he
  rcases List.mem_pair.1 hx with rfl | rfl
  · exact Option.some.inj he ▸ isClearOn_record_one _ _ key
  · exact Option.some.inj he ▸ isClearOn_record_one _ _ key

/-- The stages on the files and the facts tell the totals, whatever they said before the end. -/
theorem Tells.of_stages
    (files : ∀ x ∈ onFiles, ∃ n, x.extra = some (.record [("files_persisted", Json.nat n)]))
    (facts : ∀ x ∈ onFacts, ∀ e, x.extra = some e → ∃ t : FactTotals, e = t.told)
    (hfiles : ∃ last, onFiles.getLast? =
      some ⟨last, some (.record [("files_persisted", Json.nat stored.length)])⟩)
    (hunread : r.readable stored = [] → onFacts = [⟨factsStored, none⟩])
    (hread : r.readable stored ≠ [] → ∃ last, onFacts.getLast? =
      some ⟨last, some (FactTotals.ofFiles r (r.readable stored)).told⟩) :
    Tells r found stored (firstReports path found ++ (onFiles ++ onFacts)) := by
  refine ⟨fun key x hx => ?_, ?_, ?_, fun hne => ?_, fun hnil key hkey => ?_⟩
  · rcases List.mem_append.1 hx with hx | hx
    · exact clear_firstReports path found key x hx
    rcases List.mem_append.1 hx with hx | hx
    · intro e he
      obtain ⟨n, hn⟩ := files x hx
      exact Option.some.inj (hn.symm.trans he) ▸ isClearOn_record_one _ _ key
    · intro e he
      obtain ⟨t, rfl⟩ := facts x hx e he
      exact t.isClearOn_told key
  · rw [saidUnder_append, saidUnder_append, files_say_nothing files (by decide),
      facts_say_nothing facts fun t => t.get?_told.2.2.2.2]
    rfl
  · obtain ⟨last, hlast⟩ := hfiles
    rw [saidUnder_append, saidUnder_append, facts_say_nothing facts fun t => t.get?_told.2.2.2.1,
      List.append_nil, List.getLast?_append, said_last hlast (get?_record_one ..)]
    rfl
  · intro t
    obtain ⟨last, hlast⟩ := hread hne
    have hlastly : ∀ key n, key ≠ "files_persisted" → t.told.get? key = some (Json.nat n) →
        (saidUnder key (firstReports path found ++ (onFiles ++ onFacts))).getLast? =
          some (Json.nat n) := by
      intro key n hkey htold
      rw [saidUnder_append, saidUnder_append, files_say_nothing files hkey, List.nil_append,
        List.getLast?_append, said_last hlast htold]
      rfl
    obtain ⟨hparsed, hfacts, hedges, -⟩ := t.get?_told
    exact ⟨hlastly _ _ (by decide) hparsed, hlastly _ _ (by decide) hfacts,
      hlastly _ _ (by decide) hedges⟩
  · obtain ⟨hother, hfirst⟩ := firstReports_say_nothing path found hkey
    rw [saidUnder_append, saidUnder_append, hfirst, files_say_nothing files hother, hunread hnil]
    rfl

end Parts

/-- The reports of a survey that goes through tell what it found and stored. -/
theorem survey_tells (a : Analyzer) {job : Job} {s : Site σ} {record : Repository}
    (h : (a.survey job.repository job.data s).result = .ok record) :
    let prepared := a.prepare job.repository job.data s
    ∃ path found stored, prepared.result = .ok path ∧
      discover a.discovery path prepared.state.disk = .ok found ∧
      (a.placeFiles job.repository found prepared.state).result = .ok stored ∧
      ((stored.map (·.id)).Nodup →
        Tells a.registry found stored (a.survey job.repository job.data s).reports) := by
  intro prepared
  obtain ⟨path, found, stored, hpath, hfound, hplaced, hfacts, hreports⟩ := a.stages_of_ok h
  refine ⟨path, found, stored, hpath, hfound, hplaced, fun hdistinct => ?_⟩
  obtain ⟨s', hfiles, hsame⟩ := placeFiles_of_ok hplaced
  obtain ⟨hunread, hread⟩ := a.storeFactsOf_counted hdistinct hfacts
  rw [hreports, (a.prepare_goes job s).1, List.nil_append, hsame]
  exact .of_stages (a.extras_storeFiles job.repository found.files s')
    (a.extras_storeFactsOf stored _) (a.storeFiles_counted job.repository found.files s' hfiles)
    hunread hread

end Analyzer

end CodeSurvey
