-- What holds of a store in memory after any run, whatever was asked of it. Files belong
-- to known repositories and are told by their paths there, and facts and edges hang on
-- stored files. All ids come from one counter, so that none is given out twice.
import CodeSurvey.Proofs.Store.Refusal
import Mathlib.Data.List.Perm.Subperm

namespace CodeSurvey

/-! ## Records hang on records -/

namespace Contents

/-- What hangs together whatever was asked of the store. A fact or an edge may still name another
repository than its file does. -/
structure Linked (c : Contents) : Prop where
  known : ∀ f ∈ c.files, c.knows f.repository = true
  distinct : (c.files.map (·.key)).Nodup
  fact : ∀ x ∈ c.facts, c.hasFile x.file = true
  edge : ∀ e ∈ c.edges, c.hasFile e.sourceFile = true

theorem linked_empty : empty.Linked where
  known := by simp [empty]
  distinct := List.nodup_nil
  fact := by simp [empty]
  edge := by simp [empty]

namespace Linked

variable {c : Contents}

theorem addFiles (h : c.Linked) {stored : List StoredFile}
    (hadmits : c.Admits (stored.map (·.toNewFile))) : (c.addFiles stored).Linked where
  known := by
    intro f hf
    rcases List.mem_append.1 hf with hf | hf
    · exact h.known f hf
    · exact hadmits.known f.toNewFile (List.mem_map_of_mem hf)
  distinct := by
    have hnew := hadmits.distinct
    rw [List.map_map] at hnew
    simp only [Contents.addFiles, List.map_append]
    refine List.nodup_append.2 ⟨h.distinct, hnew, ?_⟩
    intro k hk k' hk' heq
    obtain ⟨f, hf, rfl⟩ := List.mem_map.1 hk
    obtain ⟨g, hg, rfl⟩ := List.mem_map.1 hk'
    have hfree := hadmits.free g.toNewFile (List.mem_map_of_mem hg)
    rw [hasPath_iff.2 ⟨f, hf, heq⟩] at hfree
    cases hfree
  fact x hx := hasFile_addFiles stored (h.fact x hx)
  edge e he := hasFile_addFiles stored (h.edge e he)

theorem replace (h : c.Linked) {file : Int64} (hfile : c.hasFile file = true)
    {facts : List StoredFact} {edges : List StoredEdge} (hfacts : ∀ x ∈ facts, x.file = file)
    (hedges : ∀ e ∈ edges, e.sourceFile = file) : (c.replace file facts edges).Linked where
  known := h.known
  distinct := h.distinct
  fact := by
    intro x hx
    rcases List.mem_append.1 hx with hx | hx
    · exact h.fact x (List.mem_filter.1 hx).1
    · rw [hfacts x hx]
      exact hfile
  edge := by
    intro e he
    rcases List.mem_append.1 he with he | he
    · exact h.edge e (List.mem_filter.1 he).1
    · rw [hedges e he]
      exact hfile

theorem putRepository (h : c.Linked) (r : Repository) : (c.putRepository r).Linked where
  known := by
    intro f hf
    rw [Whole.knows_putRepository, h.known f hf, Bool.true_or]
  distinct := h.distinct
  fact := h.fact
  edge := h.edge

end Linked

end Contents

namespace MemoryStore

open Storage

variable {s s' : MemoryStore}

theorem hasFile_removeFiles {ids : List Int64} {id : Int64} (h : s.contents.hasFile id = true)
    (hout : ids.contains id = false) : (s.removeFiles ids).contents.hasFile id = true := by
  obtain ⟨f, hf, rfl⟩ := Contents.hasFile_iff.1 h
  exact Contents.hasFile_iff.2 ⟨f, List.mem_filter.2 ⟨hf, by rw [hout]; rfl⟩, rfl⟩

/-- What hangs on the files is removed with them. -/
theorem linked_removeFiles (h : s.contents.Linked) (ids : List Int64) :
    (s.removeFiles ids).contents.Linked where
  known f hf := h.known f (List.mem_filter.1 hf).1
  distinct := h.distinct.sublist (List.filter_sublist.map _)
  fact := by
    intro x hx
    obtain ⟨hx, hout⟩ := List.mem_filter.1 hx
    exact hasFile_removeFiles (h.fact x hx) (by simpa using hout)
  edge := by
    intro d hd
    obtain ⟨e, he, rfl⟩ := List.mem_map.1 hd
    obtain ⟨he, hout⟩ := List.mem_filter.1 he
    exact hasFile_removeFiles (h.edge e he) (by simpa [detach] using hout)

theorem linked_insertFiles (h : s.contents.Linked) (new : List NewFile) :
    (insertFiles new s).2.contents.Linked := by
  rcases s.insertFiles_cases new with ⟨_, hrun, -⟩ | ⟨stored, id, hrun, hadmits, rfl, -⟩
  · rw [hrun]
    exact h
  · rw [hrun]
    exact h.addFiles hadmits

theorem linked_replaceFacts (h : s.contents.Linked) (file : Int64) (repository : String)
    (facts : List Fact) (edges : List Edge) :
    (replaceFacts file repository facts edges s).2.contents.Linked := by
  rcases s.replaceFacts_cases file repository facts edges with ⟨e, hrun, -⟩ |
    ⟨newFacts, newEdges, id, hrun, hcheck, hstored, hfacts, rfl, -⟩
  · rw [hrun]
    exact h
  · rw [hrun]
    refine h.replace hstored (fun x hx => ((hang_of_map_eq hfacts).2 x hx).1) fun e he => ?_
    exact (checkEdges_iff.1 hcheck e.toEdge (List.mem_map_of_mem he)).1

theorem linked_deleteRepository (h : s.contents.Linked) (id : String) :
    (deleteRepository id s).2.contents.Linked := by
  unfold deleteRepository
  split
  · have hrest := linked_removeFiles h ((s.filesOf id).map (·.id))
    refine ⟨?_, hrest.distinct, hrest.fact, fun e he => hrest.edge e (List.mem_filter.1 he).1⟩
    intro f hf
    obtain ⟨r, hr, hid⟩ := Contents.knows_iff.1 (hrest.known f hf)
    refine Contents.knows_iff.2 ⟨r, List.mem_filter.2 ⟨hr, ?_⟩, hid⟩
    -- a file of the repository would have been removed
    rw [hid, bne_iff_ne]
    rintro rfl
    obtain ⟨hf, hout⟩ := List.mem_filter.1 hf
    have hin : f.id ∈ (s.filesOf f.repository).map (·.id) :=
      List.mem_map_of_mem (List.mem_filter.2 ⟨hf, beq_self_eq_true _⟩)
    simp [hin] at hout
  · exact h

theorem linked_updateRepository (h : s.contents.Linked) (id : String) (u : RepositoryUpdate) :
    (updateRepository id u s).2.contents.Linked := by
  obtain ⟨s', hrun, -, hcontents⟩ := s.updateRepository_contents id u
  rw [hrun, hcontents]
  exact h.putRepository _

/-- Whatever is asked of the store, its records hang together as before. -/
theorem linked_perform (s : MemoryStore) (r : StoreRequest) (h : s.contents.Linked) :
    (r.perform s).2.contents.Linked := by
  cases r with
  | insertFiles new => exact linked_insertFiles h new
  | clearFiles repository => exact linked_removeFiles h _
  | replaceFacts file repository facts edges =>
    exact linked_replaceFacts h file repository facts edges
  | updateRepository id u => exact linked_updateRepository h id u
  | deleteRepository id => exact linked_deleteRepository h id
  | files repository => exact h
  | factsOfFile file => exact h
  | facts repository => exact h
  | edges repository => exact h
  | repository id => exact h

theorem linked_after (run : List StoreRequest) : (after empty run).contents.Linked := by
  refine @after_keeps _ _ (fun s => s.contents.Linked) ?_ empty Contents.linked_empty run
  exact linked_perform

/-! ## Ids -/

/-- The ids of all that is stored. -/
def ids (s : MemoryStore) : List Int64 :=
  s.files.map (·.id) ++ s.facts.map (·.id) ++ s.edges.map (·.id)

/-- The ids that are given out for a request: to the files that are stored, or to the facts and
edges that are written for a file. -/
def idsFor (s : MemoryStore) : StoreRequest → List Int64
  | .insertFiles new =>
    match insertFiles new s with
    | (.ok stored, _) => stored.map (·.id)
    | (.error _, _) => []
  | .replaceFacts file repository facts edges =>
    match replaceFacts file repository facts edges s with
    | (.ok _, s') =>
      (s'.facts.filter (fun x => x.file == file)).map (·.id) ++
        (s'.edges.filter (fun e => e.sourceFile == file)).map (·.id)
    | (.error _, _) => []
  | _ => []

/-- The ids that are given out in a run, in order. -/
def idsGiven (s : MemoryStore) : List StoreRequest → List Int64
  | [] => []
  | r :: rest => s.idsFor r ++ idsGiven (r.perform s).2 rest

theorem idsGiven_append (s : MemoryStore) (run later : List StoreRequest) :
    s.idsGiven (run ++ later) = s.idsGiven run ++ (after s run).idsGiven later := by
  induction run generalizing s with
  | nil => rfl
  | cons r rest ih =>
    rw [List.cons_append, idsGiven, idsGiven, ih, List.append_assoc]
    rfl

/-- What becomes of a store in one step. Some of its records stay, in their order, and behind them
stand new ones, which have the next ids. -/
structure Grows (s s' : MemoryStore) (stored : List StoredFile) (newFacts newEdges : List Int64) :
    Prop where
  files : ∃ kept, kept.Sublist s.files ∧ s'.files = kept ++ stored
  facts : ∃ kept, kept.Sublist (s.facts.map (·.id)) ∧ s'.facts.map (·.id) = kept ++ newFacts
  edges : ∃ kept, kept.Sublist (s.edges.map (·.id)) ∧ s'.edges.map (·.id) = kept ++ newEdges
  counted : CountedUp s.lastId (stored.map (·.id) ++ newFacts ++ newEdges) s'.lastId

/-- Where records are only taken away, no ids are given out. -/
theorem Grows.of_sublist (hfiles : s'.files.Sublist s.files) (hfacts : s'.facts.Sublist s.facts)
    (hedges : (s'.edges.map (·.id)).Sublist (s.edges.map (·.id))) (hlast : s'.lastId = s.lastId) :
    s.Grows s' [] [] [] where
  files := ⟨s'.files, hfiles, by simp⟩
  facts := ⟨s'.facts.map (·.id), hfacts.map _, by simp⟩
  edges := ⟨s'.edges.map (·.id), hedges, by simp⟩
  counted := by
    rw [hlast]
    exact .nil _

theorem Grows.refl (s : MemoryStore) : s.Grows s [] [] [] :=
  .of_sublist (.refl _) (.refl _) (.refl _) rfl

theorem sublist_removeFiles (s : MemoryStore) (files : List Int64) :
    ((s.removeFiles files).edges.map (·.id)).Sublist (s.edges.map (·.id)) := by
  have hids : (s.removeFiles files).edges.map (·.id) =
      (s.edges.filter (fun e => !files.contains e.sourceFile)).map (·.id) := by
    simp [removeFiles, detach, Function.comp_def]
  rw [hids]
  exact List.filter_sublist.map _

theorem grows_insertFiles (s : MemoryStore) (new : List NewFile) :
    ∃ stored, s.Grows (insertFiles new s).2 stored [] [] ∧ stored.length ≤ new.length ∧
      s.idsFor (.insertFiles new) = stored.map (·.id) := by
  rcases s.insertFiles_cases new with ⟨_, hrun, -⟩ | ⟨stored, id, hrun, -, rfl, hids⟩
  · refine ⟨[], ?_, Nat.zero_le _, by simp [idsFor, hrun]⟩
    rw [hrun]
    exact .refl s
  · refine ⟨stored, ?_, by simp, by simp [idsFor, hrun]⟩
    rw [hrun]
    exact ⟨⟨s.files, .refl _, rfl⟩, ⟨_, .refl _, by simp⟩, ⟨_, .refl _, by simp⟩,
      by simpa using hids⟩

/-- Behind records of other files, those of a file are found. -/
theorem filter_behind {α : Type} {p : α → Bool} {others new : List α}
    (hothers : ∀ x ∈ others, p x = false) (hnew : ∀ x ∈ new, p x = true) :
    (others ++ new).filter p = new := by
  rw [List.filter_append, List.filter_eq_self.2 hnew, List.filter_eq_nil_iff.2, List.nil_append]
  intro x hx
  simp [hothers x hx]

theorem grows_replaceFacts (s : MemoryStore) (file : Int64) (repository : String)
    (facts : List Fact) (edges : List Edge) :
    ∃ newFacts newEdges,
      s.Grows (replaceFacts file repository facts edges s).2 [] newFacts newEdges ∧
      newFacts.length + newEdges.length ≤ facts.length + edges.length ∧
      s.idsFor (.replaceFacts file repository facts edges) = newFacts ++ newEdges := by
  rcases s.replaceFacts_cases file repository facts edges with ⟨e, hrun, -⟩ |
    ⟨newFacts, newEdges, id, hrun, hcheck, -, hfacts, rfl, hids⟩
  · exact ⟨[], [], by rw [hrun]; exact .refl s, Nat.zero_le _, by simp [idsFor, hrun]⟩
  · have hlength := congrArg List.length hfacts
    rw [List.length_map, List.length_map] at hlength
    refine ⟨newFacts.map (·.id), newEdges.map (·.id), ?_, by simp [hlength], ?_⟩
    · rw [hrun]
      have hkeptFacts : (s.withoutFactsOf file).facts.Sublist s.facts := List.filter_sublist
      have hkeptEdges : (s.withoutFactsOf file).edges.Sublist s.edges := List.filter_sublist
      exact ⟨⟨s.files, .refl _, by simp [withoutFactsOf]⟩, ⟨_, hkeptFacts.map _, by simp⟩,
        ⟨_, hkeptEdges.map _, by simp⟩, by simpa using hids⟩
    · have hnewFacts : ∀ x ∈ newFacts, (x.file == file) = true := fun x hx =>
        beq_iff_eq.2 ((hang_of_map_eq hfacts).2 x hx).1
      have hnewEdges : ∀ e ∈ newEdges, (e.sourceFile == file) = true := fun e he =>
        beq_iff_eq.2 (checkEdges_iff.1 hcheck e.toEdge (List.mem_map_of_mem he)).1
      simp only [idsFor, hrun, withoutFactsOf]
      rw [filter_behind (by simp) hnewFacts, filter_behind (by simp) hnewEdges]

theorem grows_removeFiles (s : MemoryStore) (files : List Int64) :
    s.Grows (s.removeFiles files) [] [] [] :=
  .of_sublist List.filter_sublist List.filter_sublist (s.sublist_removeFiles files) rfl

theorem grows_updateRepository (s : MemoryStore) (id : String) (u : RepositoryUpdate) :
    s.Grows (updateRepository id u s).2 [] [] [] := by
  obtain ⟨s', hrun, hlast, hcontents⟩ := s.updateRepository_contents id u
  have hfiles : s'.files = s.files := congrArg Contents.files hcontents
  have hfacts : s'.facts = s.facts := congrArg Contents.facts hcontents
  have hedges : s'.edges = s.edges := congrArg Contents.edges hcontents
  rw [hrun]
  exact .of_sublist (by rw [hfiles]) (by rw [hfacts]) (by rw [hedges]) hlast

theorem grows_deleteRepository (s : MemoryStore) (id : String) :
    s.Grows (deleteRepository id s).2 [] [] [] := by
  unfold deleteRepository
  split
  · exact .of_sublist List.filter_sublist List.filter_sublist
      ((List.filter_sublist.map _).trans (s.sublist_removeFiles _)) rfl
  · exact .refl s

/-- Every request gives out the next ids, to what it stores. -/
theorem grows_perform (s : MemoryStore) (r : StoreRequest) :
    ∃ files facts edges, s.Grows (r.perform s).2 files facts edges ∧
      s.idsFor r = files.map (·.id) ++ facts ++ edges := by
  cases r with
  | insertFiles new =>
    obtain ⟨stored, hgrows, -, hids⟩ := s.grows_insertFiles new
    exact ⟨stored, [], [], hgrows, by simp [hids]⟩
  | replaceFacts file repository facts edges =>
    obtain ⟨newFacts, newEdges, hgrows, -, hids⟩ :=
      s.grows_replaceFacts file repository facts edges
    exact ⟨[], newFacts, newEdges, hgrows, by simp [hids]⟩
  | clearFiles repository => exact ⟨[], [], [], s.grows_removeFiles _, rfl⟩
  | updateRepository id u => exact ⟨[], [], [], s.grows_updateRepository id u, rfl⟩
  | deleteRepository id => exact ⟨[], [], [], s.grows_deleteRepository id, rfl⟩
  | files repository => exact ⟨[], [], [], .refl s, rfl⟩
  | factsOfFile file => exact ⟨[], [], [], .refl s, rfl⟩
  | facts repository => exact ⟨[], [], [], .refl s, rfl⟩
  | edges repository => exact ⟨[], [], [], .refl s, rfl⟩
  | repository id => exact ⟨[], [], [], .refl s, rfl⟩

/-- How the ids of what is stored come from all those that were given out. -/
structure Numbers (s : MemoryStore) (given : List Int64) : Prop where
  counted : CountedUp 0 given s.lastId
  files : (s.files.map (·.id)).Sublist given
  facts : (s.facts.map (·.id)).Sublist given
  edges : (s.edges.map (·.id)).Sublist given
  once : s.ids.Subperm given

theorem numbers_empty : empty.Numbers [] :=
  ⟨.nil 0, .refl _, .refl _, .refl _, .refl _⟩

theorem Numbers.grow {given : List Int64} {files : List StoredFile} {facts edges : List Int64}
    (h : s.Numbers given) (hgrows : s.Grows s' files facts edges) :
    s'.Numbers (given ++ (files.map (·.id) ++ facts ++ edges)) := by
  obtain ⟨⟨keptFiles, hkeptFiles, hfiles⟩, ⟨keptFacts, hkeptFacts, hfacts⟩,
    ⟨keptEdges, hkeptEdges, hedges⟩, hcounted⟩ := hgrows
  have hfileIds : s'.files.map (·.id) = keptFiles.map (·.id) ++ files.map (·.id) := by
    rw [hfiles, List.map_append]
  have hkeptIds := hkeptFiles.map (·.id)
  refine ⟨h.counted.append hcounted, ?_, ?_, ?_, ?_⟩
  · rw [hfileIds]
    refine (hkeptIds.trans h.files).append ?_
    rw [List.append_assoc]
    exact List.sublist_append_left _ _
  · rw [hfacts]
    refine (hkeptFacts.trans h.facts).append ?_
    exact (List.sublist_append_right _ _).trans (List.sublist_append_left _ _)
  · rw [hedges]
    exact (hkeptEdges.trans h.edges).append (List.sublist_append_right _ _)
  · -- kept ids and new ones, each kind in its place, are the kept ids and then the new ones
    have hperm : s'.ids.Perm ((keptFiles.map (·.id) ++ keptFacts ++ keptEdges) ++
        (files.map (·.id) ++ facts ++ edges)) := by
      unfold ids
      rw [hfileIds, hfacts, hedges]
      refine List.perm_iff_count.2 fun id => ?_
      simp only [List.count_append]
      omega
    have hkept : (keptFiles.map (·.id) ++ keptFacts ++ keptEdges).Subperm given :=
      ((hkeptIds.append hkeptFacts).append hkeptEdges).subperm.trans h.once
    exact hperm.subperm.trans (hkept.append (.refl _))

/-- Ids are given out in a run as they are in its steps. -/
theorem Numbers.after {given : List Int64} (h : s.Numbers given) (run : List StoreRequest) :
    (Storage.after s run).Numbers (given ++ s.idsGiven run) := by
  induction run generalizing s given with
  | nil =>
    rw [idsGiven, List.append_nil]
    exact h
  | cons r rest ih =>
    obtain ⟨files, facts, edges, hgrows, hids⟩ := s.grows_perform r
    have hstep := h.grow hgrows
    rw [← hids] at hstep
    have hrest := ih hstep
    rwa [List.append_assoc] at hrest

theorem numbers_after (run : List StoreRequest) :
    (Storage.after empty run).Numbers (empty.idsGiven run) :=
  numbers_empty.after run

/-- A file that is stored after a run was stored before it, or has an id that was given out in
it. -/
theorem files_after (s : MemoryStore) (run : List StoreRequest) {g : StoredFile}
    (hg : g ∈ (Storage.after s run).files) : g ∈ s.files ∨ g.id ∈ s.idsGiven run := by
  induction run generalizing s with
  | nil => exact .inl hg
  | cons r rest ih =>
    rw [idsGiven, List.mem_append]
    rcases ih (r.perform s).2 hg with hmem | hmem
    · obtain ⟨files, facts, edges, ⟨⟨kept, hkept, hfiles⟩, -, -, -⟩, hids⟩ := s.grows_perform r
      rw [hfiles] at hmem
      rcases List.mem_append.1 hmem with hmem | hmem
      · exact .inl (hkept.subset hmem)
      · refine .inr (.inl ?_)
        rw [hids, List.append_assoc]
        exact List.mem_append_left _ (List.mem_map_of_mem hmem)
    · exact .inr (.inr hmem)

/-- Records of each kind stand in the order of their ids, and no two records have one id. -/
structure InIdOrder (s : MemoryStore) : Prop where
  files : (s.files.map (·.id)).Pairwise (· < ·)
  facts : (s.facts.map (·.id)).Pairwise (· < ·)
  edges : (s.edges.map (·.id)).Pairwise (· < ·)
  distinct : s.ids.Nodup

/-- Ids that were given out are told apart as long as the counter did not run over. -/
theorem Numbers.numbered {given : List Int64} (h : s.Numbers given)
    (hroom : given.length < Text.wordSize 63) : Numbered 0 s.lastId given := by
  refine (h.counted.numbered ?_).1
  rw [Int64.toInt_zero]
  omega

theorem Numbers.inIdOrder {given : List Int64} (h : s.Numbers given)
    (hroom : given.length < Text.wordSize 63) : s.InIdOrder where
  files := (h.numbered hroom).ascending.sublist h.files
  facts := (h.numbered hroom).ascending.sublist h.facts
  edges := (h.numbered hroom).ascending.sublist h.edges
  distinct := by
    obtain ⟨given', hperm, hsub⟩ := h.once
    exact (hperm.nodup_iff).1 ((h.numbered hroom).nodup.sublist hsub)

/-- The id of a file never comes to stand for another file, whether the file is still stored or
not. -/
theorem same_file_of_id {before later : List StoreRequest}
    (hroom : (empty.idsGiven (before ++ later)).length < Text.wordSize 63) {f g : StoredFile}
    (hf : f ∈ (Storage.after empty before).files)
    (hg : g ∈ (Storage.after empty (before ++ later)).files) (hid : f.id = g.id) : f = g := by
  have hbefore := numbers_after before
  have hnodup := ((numbers_after (before ++ later)).numbered hroom).nodup
  rw [idsGiven_append] at hnodup hroom
  have hfgiven : f.id ∈ empty.idsGiven before := hbefore.files.subset (List.mem_map_of_mem hf)
  rw [after_append] at hg
  rcases files_after _ later hg with hg | hg
  · have hlength : (empty.idsGiven before).length < Text.wordSize 63 := by
      rw [List.length_append] at hroom
      omega
    have hdistinct := (hbefore.inIdOrder hlength).distinct
    unfold ids at hdistinct
    rw [List.append_assoc] at hdistinct
    exact List.inj_on_of_nodup_map (List.nodup_append.1 hdistinct).1 hf hg hid
  · exact absurd hid ((List.nodup_append.1 hnodup).2.2 f.id hfgiven g.id hg)

/-- After any run, files belong to known repositories and are told by their paths there, and facts
and edges hang on stored files. Ids were given out one behind the other. As long as the counter
does not run over, no two records have one id, records stand in the order of their ids, and no id
is given out twice, be it after records are gone. -/
theorem integrity (run : List StoreRequest) :
    (Storage.after empty run).contents.Linked ∧
      CountedUp 0 (empty.idsGiven run) (Storage.after empty run).lastId ∧
      (∀ id ∈ (Storage.after empty run).ids, id ∈ empty.idsGiven run) ∧
      ((empty.idsGiven run).length < Text.wordSize 63 →
        (Storage.after empty run).InIdOrder ∧ (empty.idsGiven run).Pairwise (· < ·) ∧
        ∀ before later, run = before ++ later → ∀ f ∈ (Storage.after empty before).files,
          ∀ g ∈ (Storage.after empty run).files, f.id = g.id → f = g) := by
  have hnumbers := numbers_after run
  refine ⟨linked_after run, hnumbers.counted, fun id hid => hnumbers.once.subset hid, ?_⟩
  intro hroom
  refine ⟨hnumbers.inIdOrder hroom, (hnumbers.numbered hroom).ascending, ?_⟩
  rintro before later rfl f hf g hg hid
  exact same_file_of_id hroom hf hg hid

end MemoryStore

/-- A file gets a fact and an edge. -/
def describedRun : List StoreRequest :=
  oneFileRun ++ [.replaceFacts 1 "r" [.bare "f" .function 1 1]
    [⟨"r", 1, none, some "os", "import", "os", 1⟩]]

/-- The file is removed, and stored again. -/
def removedAndStored : List StoreRequest := [.clearFiles "r", .insertFiles [sampleFile "a.py"]]

/-- The file that is stored again is told from the one before. -/
theorem integrity_of_removed :
    (MemoryStore.empty.idsGiven (describedRun ++ removedAndStored)).length < Text.wordSize 63 ∧
      MemoryStore.empty.idsGiven (describedRun ++ removedAndStored) = [1, 2, 3, 4] ∧
      (Storage.after MemoryStore.empty describedRun).ids = [1, 2, 3] ∧
      (Storage.after MemoryStore.empty (describedRun ++ removedAndStored)).ids = [4] ∧
      (Storage.after MemoryStore.empty (describedRun ++ removedAndStored)).InIdOrder := by
  have hgiven : MemoryStore.empty.idsGiven (describedRun ++ removedAndStored) = [1, 2, 3, 4] := by
    decide
  have hroom : (MemoryStore.empty.idsGiven (describedRun ++ removedAndStored)).length <
      Text.wordSize 63 := by
    rw [hgiven]
    decide
  obtain ⟨-, -, -, hordered⟩ := MemoryStore.integrity (describedRun ++ removedAndStored)
  exact ⟨hroom, hgiven, by decide, by decide, (hordered hroom).1⟩

end CodeSurvey
