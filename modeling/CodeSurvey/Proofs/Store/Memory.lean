-- The store in memory keeps to its contents, which are its lists as they are.
import CodeSurvey.Proofs.Store.Lawful
import CodeSurvey.Store.Memory

namespace CodeSurvey.MemoryStore

/-! ## What it holds -/

/-- The lists of the store. -/
def contents (s : MemoryStore) : Contents := ⟨s.repositories, s.files, s.facts, s.edges⟩

/-- The store holds the contents, and no file has an id that was not given out yet. -/
structure Keeps (s : MemoryStore) (c : Contents) : Prop where
  contents : s.contents = c
  files : ∀ f ∈ c.files, f.id ≤ s.lastId

theorem keeps_empty : empty.Keeps .empty := ⟨rfl, by simp [Contents.empty]⟩

/-- All kinds of records take their ids from one counter. -/
def last (s : MemoryStore) : LastIds := fun _ => s.lastId

/-! ## Files -/

/-- What is checked file by file is that the contents admit them. -/
theorem checkFiles_iff (s : MemoryStore) (before new : List NewFile) :
    s.checkFiles before new = .ok () ↔
      s.contents.Admits new ∧ ∀ f ∈ new, ∀ g ∈ before, f.key ≠ g.key := by
  induction new generalizing before with
  | nil => simp [checkFiles, Contents.admits_nil]
  | cons f new ih =>
    have hbefore : before.any (fun g => g.repository == f.repository && g.path == f.path) = true ↔
        ∃ g ∈ before, g.key = f.key := by
      simp [NewFile.key]
    have hholds : s.holds f.repository f.path = s.contents.hasPath f.repository f.path := rfl
    have hknows : s.knows f.repository = s.contents.knows f.repository := rfl
    unfold checkFiles
    rw [Contents.admits_cons, hknows, hholds]
    cases hk : s.contents.knows f.repository with
    | false => simp
    | true =>
      cases hp : s.contents.hasPath f.repository f.path with
      | true => simp
      | false =>
        simp only [Bool.not_true, Bool.false_eq_true, if_false, Bool.false_or, hbefore, true_and]
        split
        · rename_i h
          obtain ⟨g, hg, heq⟩ := h
          simp only [reduceCtorEq, false_iff]
          rintro ⟨-, hother⟩
          exact hother f (by simp) g hg heq.symm
        · rename_i h
          rw [ih]
          constructor
          · rintro ⟨hadmits, hother⟩
            refine ⟨⟨fun g hg => hother g hg f (by simp), hadmits⟩, ?_⟩
            rintro g hg x hx
            rcases List.mem_cons.1 hg with rfl | hg
            · exact fun heq => h ⟨x, hx, heq.symm⟩
            · exact hother g hg x (by simp [hx])
          · rintro ⟨⟨hf, hadmits⟩, hother⟩
            refine ⟨hadmits, fun g hg x hx => ?_⟩
            rcases List.mem_cons.1 hx with rfl | hx
            · exact hf g hg
            · exact hother g (by simp [hg]) x hx

/-- Files are added behind the others, with the next ids. -/
theorem addFiles_counted (s : MemoryStore) (new : List NewFile) :
    ∃ stored id, s.addFiles new = (stored, { s with lastId := id, files := s.files ++ stored }) ∧
      stored.map (·.toNewFile) = new ∧ CountedUp s.lastId (stored.map (·.id)) id := by
  induction new generalizing s with
  | nil => exact ⟨[], s.lastId, by simp [addFiles], rfl, .nil _⟩
  | cons f new ih =>
    obtain ⟨stored, id, hadd, hnew, hids⟩ := ih (s.addFile f).2
    simp only [addFile] at hadd hids
    exact ⟨⟨f, s.lastId + 1⟩ :: stored, id, by simp [addFiles, addFile, hadd], by simp [hnew],
      .next hids⟩

/-- Either files are refused that cannot all be stored, or all are stored behind the others, with
the next ids. -/
theorem insertFiles_cases (s : MemoryStore) (new : List NewFile) :
    (∃ e, insertFiles new s = (.error e, s) ∧ ¬ s.contents.Admits new) ∨
      ∃ stored id, insertFiles new s =
        (.ok stored, { s with lastId := id, files := s.files ++ stored }) ∧ s.contents.Admits new ∧
        stored.map (·.toNewFile) = new ∧ CountedUp s.lastId (stored.map (·.id)) id := by
  have hadmits := s.checkFiles_iff [] new
  unfold insertFiles
  cases hcheck : s.checkFiles [] new with
  | error e =>
    refine .inl ⟨e, rfl, fun h => ?_⟩
    rw [hadmits.2 ⟨h, by simp⟩] at hcheck
    cases hcheck
  | ok _ =>
    obtain ⟨stored, id, hadd, hnew, hids⟩ := s.addFiles_counted new
    exact .inr ⟨stored, id, by simp only [hadd], (hadmits.1 hcheck).1, hnew, hids⟩

/-- As long as there are ids, those of new files are in order, one for each. -/
theorem insertFiles_counted (s : MemoryStore) (new : List NewFile)
    (hroom : s.lastId.toInt + new.length < Text.wordSize 63) :
    (∃ e, insertFiles new s = (.error e, s) ∧ ¬ s.contents.Admits new) ∨
      ∃ stored s', insertFiles new s = (.ok stored, s') ∧
        s'.contents = s.contents.addFiles stored ∧ s.contents.Admits new ∧
        stored.map (·.toNewFile) = new ∧ Numbered s.lastId s'.lastId (stored.map (·.id)) ∧
        s'.lastId.toInt = s.lastId.toInt + new.length := by
  rcases s.insertFiles_cases new with hrefused | ⟨stored, id, hrun, hadmits, hnew, hids⟩
  · exact .inl hrefused
  · have hlength : (stored.map (·.id)).length = new.length := by
      rw [← hnew, List.length_map, List.length_map]
    obtain ⟨hnumbered, hid⟩ := hids.numbered (by rw [hlength]; exact hroom)
    rw [hlength] at hid
    exact .inr ⟨stored, _, hrun, rfl, hadmits, hnew, hnumbered, hid⟩

theorem removeFiles_keeps {s : MemoryStore} {c : Contents} (h : s.Keeps c) (hd : c.Distinct)
    (repository : String) :
    (s.removeFiles (c.idsOf repository)).Keeps (c.clear repository) := by
  obtain ⟨rfl, hfiles⟩ := h
  refine ⟨?_, fun f hf => hfiles f (List.mem_filter.1 hf).1⟩
  unfold contents removeFiles Contents.clear
  congr 1
  refine List.filter_congr fun f hf => ?_
  have hmem : f.id ∈ s.contents.idsOf repository ↔ f.repository = repository :=
    hd.mem_idsOf_iff hf
  change (!(s.contents.idsOf repository).contains f.id) = (f.repository != repository)
  rw [Bool.eq_iff_iff]
  simpa using not_congr hmem

/-! ## Facts and edges -/

/-- Facts of a file are added behind the others, with the next ids. -/
theorem foldl_addFact (s : MemoryStore) (file : Int64) (repository : String) (facts : List Fact) :
    ∃ new id, facts.foldl (addFact file repository) s =
        { s with lastId := id, facts := s.facts ++ new } ∧
      new.map (fun x => (x.file, x.repository, x.fact)) =
        facts.map (fun a => (file, repository, a)) ∧
      CountedUp s.lastId (new.map (·.id)) id := by
  induction facts generalizing s with
  | nil => exact ⟨[], s.lastId, by simp, rfl, .nil _⟩
  | cons f facts ih =>
    obtain ⟨new, id, hadd, hnew, hids⟩ := ih (s.addFact file repository f)
    simp only [addFact] at hadd hids
    exact ⟨⟨s.lastId + 1, file, repository, f⟩ :: new, id, by simp [addFact, hadd], by simp [hnew],
      .next hids⟩

/-- Edges are added behind the others, with the next ids. -/
theorem foldl_addEdge (s : MemoryStore) (edges : List Edge) :
    ∃ new id, edges.foldl addEdge s = { s with lastId := id, edges := s.edges ++ new } ∧
      new.map (·.toEdge) = edges ∧ CountedUp s.lastId (new.map (·.id)) id := by
  induction edges generalizing s with
  | nil => exact ⟨[], s.lastId, by simp, rfl, .nil _⟩
  | cons e edges ih =>
    obtain ⟨new, id, hadd, hnew, hids⟩ := ih (s.addEdge e)
    simp only [addEdge] at hadd hids
    exact ⟨⟨e, s.lastId + 1⟩ :: new, id, by simp [addEdge, hadd], by simp [hnew], .next hids⟩

/-- Facts of a file and then edges are added behind the others, with the next ids. -/
theorem addBoth_counted (s : MemoryStore) (file : Int64) (repository : String) (facts : List Fact)
    (edges : List Edge) :
    ∃ newFacts newEdges id, edges.foldl addEdge (facts.foldl (addFact file repository) s) =
        { s with lastId := id, facts := s.facts ++ newFacts, edges := s.edges ++ newEdges } ∧
      newFacts.map (fun x => (x.file, x.repository, x.fact)) =
        facts.map (fun a => (file, repository, a)) ∧
      newEdges.map (·.toEdge) = edges ∧
      CountedUp s.lastId (newFacts.map (·.id) ++ newEdges.map (·.id)) id := by
  obtain ⟨newFacts, mid, haddFacts, hfacts, hmid⟩ := s.foldl_addFact file repository facts
  obtain ⟨newEdges, id, haddEdges, hedges, hid⟩ :=
    foldl_addEdge { s with lastId := mid, facts := s.facts ++ newFacts } edges
  exact ⟨newFacts, newEdges, id, by rw [haddFacts, haddEdges], hfacts, hedges, hmid.append hid⟩

/-- Either nothing is replaced, or the file is stored and gets just these facts and edges. -/
theorem replaceFacts_cases (s : MemoryStore) (file : Int64) (repository : String)
    (facts : List Fact) (edges : List Edge) :
    (∃ e, replaceFacts file repository facts edges s = (.error e, s) ∧
        ¬ (checkEdges file repository edges = .ok () ∧ s.contents.hasFile file = true)) ∨
      ∃ newFacts newEdges id, replaceFacts file repository facts edges s =
        (.ok (), { s.withoutFactsOf file with
          lastId := id
          facts := (s.withoutFactsOf file).facts ++ newFacts
          edges := (s.withoutFactsOf file).edges ++ newEdges }) ∧
        checkEdges file repository edges = .ok () ∧ s.contents.hasFile file = true ∧
        newFacts.map (fun x => (x.file, x.repository, x.fact)) =
          facts.map (fun a => (file, repository, a)) ∧
        newEdges.map (·.toEdge) = edges ∧
        CountedUp s.lastId (newFacts.map (·.id) ++ newEdges.map (·.id)) id := by
  unfold replaceFacts
  cases hcheck : checkEdges file repository edges with
  | error e => exact .inl ⟨e, rfl, by simp⟩
  | ok _ =>
    by_cases hstored : s.files.any (fun f => f.id == file) = true
    · obtain ⟨newFacts, newEdges, id, hadd, hfacts, hedges, hids⟩ :=
        (s.withoutFactsOf file).addBoth_counted file repository facts edges
      exact .inr ⟨newFacts, newEdges, id, by simp only [hstored, if_true, hadd], rfl, hstored,
        hfacts, hedges, hids⟩
    · refine .inl ⟨.unknownFile file, ?_, fun h => hstored h.2⟩
      simp only [hstored, Bool.false_eq_true, if_false]

/-- As long as there are ids, those of the facts and edges are in order, one for each. -/
theorem replaceFacts_counted (s : MemoryStore) (file : Int64) (repository : String)
    (facts : List Fact) (edges : List Edge)
    (hroom : s.lastId.toInt + (facts.length + edges.length : Nat) < Text.wordSize 63) :
    (∃ e, replaceFacts file repository facts edges s = (.error e, s) ∧
        ¬ (checkEdges file repository edges = .ok () ∧ s.contents.hasFile file = true)) ∨
      ∃ newFacts newEdges s', replaceFacts file repository facts edges s = (.ok (), s') ∧
        s'.contents = s.contents.replace file newFacts newEdges ∧
        checkEdges file repository edges = .ok () ∧ s.contents.hasFile file = true ∧
        newFacts.map (fun x => (x.file, x.repository, x.fact)) =
          facts.map (fun a => (file, repository, a)) ∧
        newEdges.map (·.toEdge) = edges ∧
        Numbered s.lastId s'.lastId (newFacts.map (·.id) ++ newEdges.map (·.id)) ∧
        s'.lastId.toInt = s.lastId.toInt + (facts.length + edges.length : Nat) := by
  rcases s.replaceFacts_cases file repository facts edges with hrefused |
    ⟨newFacts, newEdges, id, hrun, hcheck, hstored, hfacts, hedges, hids⟩
  · exact .inl hrefused
  · have hlength : (newFacts.map (·.id) ++ newEdges.map (·.id)).length =
        facts.length + edges.length := by
      have := congrArg List.length hfacts
      have := congrArg List.length hedges
      simp only [List.length_append, List.length_map] at *
      omega
    obtain ⟨hnumbered, hid⟩ := hids.numbered (by rw [hlength]; exact hroom)
    rw [hlength] at hid
    exact .inr ⟨newFacts, newEdges, _, hrun, rfl, hcheck, hstored, hfacts, hedges, hnumbered, hid⟩

/-- For a stored file and edges of its own, facts and edges are replaced. -/
theorem replaceFacts_done {s : MemoryStore} {file : Int64} {repository : String} (facts : List Fact)
    {edges : List Edge} (hcheck : checkEdges file repository edges = .ok ())
    (h : s.contents.hasFile file = true)
    (hroom : s.lastId.toInt + (facts.length + edges.length : Nat) < Text.wordSize 63) :
    ∃ newFacts newEdges s', replaceFacts file repository facts edges s = (.ok (), s') ∧
      s'.contents = s.contents.replace file newFacts newEdges ∧
      newFacts.map (fun x => (x.file, x.repository, x.fact)) =
        facts.map (fun a => (file, repository, a)) ∧
      newEdges.map (·.toEdge) = edges ∧
      Numbered s.lastId s'.lastId (newFacts.map (·.id) ++ newEdges.map (·.id)) ∧
      s'.lastId.toInt = s.lastId.toInt + (facts.length + edges.length : Nat) := by
  rcases s.replaceFacts_counted file repository facts edges hroom with ⟨_, -, hbad⟩ |
    ⟨newFacts, newEdges, s', hrun, hcontents, -, -, hgiven⟩
  · exact absurd ⟨hcheck, h⟩ hbad
  · exact ⟨newFacts, newEdges, s', hrun, hcontents, hgiven⟩

/-- A file of the contents gets other facts and edges. -/
theorem replaceFacts_keeps {s : MemoryStore} {c : Contents} (h : s.Keeps c) {f : StoredFile}
    (hf : f ∈ c.files) {facts : List Fact} {edges : List Edge}
    (hcheck : checkEdges f.id f.repository edges = .ok ())
    (hroom : s.lastId.toInt + (facts.length + edges.length : Nat) < Text.wordSize 63) :
    ∃ newFacts newEdges s', replaceFacts f.id f.repository facts edges s = (.ok (), s') ∧
      newFacts.map (fun x => (x.file, x.repository, x.fact)) =
        facts.map (fun a => (f.id, f.repository, a)) ∧
      newEdges.map (·.toEdge) = edges ∧
      Numbered s.lastId s'.lastId (newFacts.map (·.id)) ∧
      Numbered s.lastId s'.lastId (newEdges.map (·.id)) ∧
      s'.lastId.toInt = s.lastId.toInt + (facts.length + edges.length : Nat) ∧
      s'.Keeps (c.replace f.id newFacts newEdges) := by
  obtain ⟨rfl, hfiles⟩ := h
  have hstored : s.contents.hasFile f.id = true := Contents.hasFile_iff.2 ⟨f, hf, rfl⟩
  obtain ⟨newFacts, newEdges, s', hrun, hcontents, hfacts, hedges, hnumbered, hid⟩ :=
    replaceFacts_done facts hcheck hstored hroom
  refine ⟨newFacts, newEdges, s', hrun, hfacts, hedges, hnumbered.of_append.1,
    hnumbered.of_append.2, hid, hcontents, fun g hg => ?_⟩
  have := hfiles g hg
  rw [Int64.le_iff_toInt_le] at this ⊢
  omega

/-! ## Repositories -/

/-- A known repository is removed with its files, and with the edges that name it. -/
theorem deleteRepository_leaves {s : MemoryStore} {c : Contents} (h : s.Keeps c) (hd : c.Distinct)
    {id : String} (hknown : c.knows id = true) :
    ∃ s', deleteRepository id s = (.ok true, s') ∧ s'.lastId = s.lastId ∧
      s'.Keeps { c.delete id with
        edges := (c.clear id).edges.filter (fun e => e.repository != id) } := by
  have hids : (s.filesOf id).map (·.id) = c.idsOf id := by rw [← h.contents]; rfl
  have hknows : s.knows id = true := by rw [← hknown, ← h.contents]; rfl
  have hcleared := removeFiles_keeps h hd id
  unfold deleteRepository
  simp only [hknows, hids, if_true]
  refine ⟨_, rfl, rfl, ?_, hcleared.files⟩
  unfold contents Contents.delete
  rw [← hcleared.contents]
  simp only [contents]
  rw [← h.contents]
  rfl

theorem deleteRepository_keeps {s : MemoryStore} {c : Contents} (h : s.Keeps c) (hw : c.Whole)
    (id : String) :
    ∃ s', deleteRepository id s = (.ok (c.knows id), s') ∧ s'.lastId = s.lastId ∧
      s'.Keeps (c.delete id) := by
  cases hk : c.knows id with
  | false =>
    have hunknown : s.knows id = false := by rw [← hk, ← h.contents]; rfl
    refine ⟨s, by simp only [deleteRepository, hunknown, Bool.false_eq_true, if_false], rfl, ?_⟩
    rw [hw.delete_of_unknown hk]
    exact h
  | true =>
    obtain ⟨s', hrun, hlast, hkept⟩ := deleteRepository_leaves h hw.distinct hk
    refine ⟨s', hrun, hlast, ?_⟩
    -- no edge of the repository is left once those from its files are gone
    have hedges : (c.clear id).edges.filter (fun e => e.repository != id) = (c.clear id).edges := by
      refine List.filter_eq_self.2 fun d hd => ?_
      obtain ⟨e, he, rfl⟩ := List.mem_map.1 hd
      obtain ⟨he, hout⟩ := List.mem_filter.1 he
      simpa [StoredEdge.detached, hw.edge_mem_idsOf he] using hout
    rwa [hedges] at hkept

/-- A repository is updated whatever else the store holds. -/
theorem updateRepository_contents (s : MemoryStore) (id : String) (u : RepositoryUpdate) :
    ∃ s', updateRepository id u s = (.ok (s.contents.updated id u), s') ∧ s'.lastId = s.lastId ∧
      s'.contents = s.contents.putRepository (s.contents.updated id u) := by
  have hid := s.contents.updated_id id u
  have hput : ∀ r : Repository, r.id = id → s.contents.putRepository r =
      { s.contents with repositories :=
        if s.contents.knows id then s.repositories.map (fun o => if o.id == id then r else o)
        else s.repositories ++ [r] } := by
    rintro r rfl
    rfl
  rw [hput _ hid]
  unfold updateRepository Contents.updated
  cases hr : s.repositoryOf id with
  | none =>
    have hof : s.contents.repositoryOf id = none := hr
    rw [if_neg (by simp [Contents.unknown_of_repositoryOf hof]), hof]
    exact ⟨_, rfl, rfl, rfl⟩
  | some r =>
    have hof : s.contents.repositoryOf id = some r := hr
    rw [if_pos (Contents.knows_of_repositoryOf hof), hof]
    exact ⟨_, rfl, rfl, rfl⟩

theorem updateRepository_keeps {s : MemoryStore} {c : Contents} (h : s.Keeps c) (id : String)
    (u : RepositoryUpdate) :
    ∃ s', updateRepository id u s = (.ok (c.updated id u), s') ∧ s'.lastId = s.lastId ∧
      s'.Keeps (c.putRepository (c.updated id u)) := by
  obtain ⟨rfl, hfiles⟩ := h
  obtain ⟨s', hrun, hlast, hcontents⟩ := s.updateRepository_contents id u
  exact ⟨s', hrun, hlast, hcontents, by rw [hlast]; exact hfiles⟩

/-! ## The store -/

theorem counts_last {s s' : MemoryStore} {n : Nat}
    (h : s'.lastId.toInt = s.lastId.toInt + n) : s.last.Counts n s'.last := by
  intro k
  simp only [last]
  omega

instance : LawfulStorage MemoryStore where
  Keeps := Keeps
  last := last
  file_le_last h := h.files
  insertFiles_ok {s c new} h hadmits _ hroom := by
    obtain ⟨rfl, hfiles⟩ := h
    rcases s.insertFiles_counted new (hroom .file) with ⟨_, -, hbad⟩ |
      ⟨stored, s', hrun, hcontents, -, hnew, hnumbered, hid⟩
    · exact absurd hadmits hbad
    · refine ⟨stored, s', hrun, hnew, hnumbered, counts_last hid, hcontents, fun f hf => ?_⟩
      rcases List.mem_append.1 hf with hf | hf
      · have := hfiles f hf
        rw [Int64.le_iff_toInt_le] at this ⊢
        omega
      · exact hnumbered.upTo f.id (List.mem_map_of_mem hf)
  insertFiles_refused {s c new} h hadmits _ _ := by
    obtain ⟨rfl, -⟩ := h
    rcases s.insertFiles_cases new with ⟨e, hrun, -⟩ | ⟨_, _, -, hgood, -⟩
    · exact ⟨e, hrun⟩
    · exact absurd hgood hadmits
  files {s c} repository h := by
    rw [← h.contents]
    rfl
  clearFiles {s c} repository h hw := by
    have hids : (s.filesOf repository).map (·.id) = c.idsOf repository := by
      rw [← h.contents]
      rfl
    refine ⟨s.removeFiles (c.idsOf repository), ?_, counts_last (by simp [removeFiles]),
      removeFiles_keeps h hw.distinct repository⟩
    change clearFiles repository s = _
    simp only [clearFiles, hids]
    simp [Contents.idsOf]
  replaceFacts_ok {s c f facts edges} h _ hf hcheck _ hroom := by
    obtain ⟨newFacts, newEdges, s', hrun, hfacts, hedges, hfactIds, hedgeIds, hid, hkeeps⟩ :=
      replaceFacts_keeps h hf hcheck (hroom .file)
    exact ⟨newFacts, newEdges, s', hrun, hfacts, hedges, hfactIds, hedgeIds, counts_last hid,
      hkeeps⟩
  replaceFacts_refused {s c file repository edges} facts h hbad := by
    obtain ⟨rfl, -⟩ := h
    rcases s.replaceFacts_cases file repository facts edges with ⟨e, hrun, -⟩ |
      ⟨_, _, _, -, hcheck, hstored, -⟩
    · exact ⟨e, hrun⟩
    · rcases hbad with hbad | hbad
      · exact absurd hcheck hbad
      · rw [hstored] at hbad
        cases hbad
  factsOfFile {s c} file h := by
    rw [← h.contents]
    rfl
  facts {s c} repository h := by
    rw [← h.contents]
    rfl
  edges {s c} repository h := by
    rw [← h.contents]
    rfl
  updateRepository {s c} id u h := by
    obtain ⟨s', hrun, hlast, hkeeps⟩ := updateRepository_keeps h id u
    exact ⟨_, s', hrun, c.updated_id id u, fun _ => rfl, counts_last (by simp [hlast]), hkeeps⟩
  repository {s c} id h := by
    rw [← h.contents]
    rfl
  deleteRepository {s c} id h hw := by
    obtain ⟨s', hrun, hlast, hkeeps⟩ := deleteRepository_keeps h hw id
    exact ⟨s', hrun, counts_last (by simp [hlast]), hkeeps⟩

end CodeSurvey.MemoryStore
