-- The database keeps to its contents: the row of each record reads back as
-- that record. Statements that are refused on the way leave nothing behind,
-- since they stand in a transaction.
import CodeSurvey.Proofs.Store.Lawful
import CodeSurvey.Store.Relational.Schema

namespace CodeSurvey.Relational.Database

/-! ## What it holds -/

/-- Each row reads back as the record at its place, and no file has an id that was not given out
yet. -/
structure Keeps (d : Database) (c : Contents) : Prop where
  repositories :
    List.Forall₂ (fun row r => RepositoryRow.toRepository row = .ok r) d.repositories c.repositories
  files : List.Forall₂ (fun row f => FileRow.toFile row = .ok f) d.files.rows c.files
  facts : List.Forall₂ (fun row x => FactRow.toFact row = .ok x) d.facts.rows c.facts
  edges : List.Forall₂ (fun row e => EdgeRow.toEdge row = .ok e) d.edges.rows c.edges
  lastFile : ∀ f ∈ c.files, f.id ≤ d.files.lastId

theorem keeps_fresh : fresh.Keeps .empty where
  repositories := .nil
  files := .nil
  facts := .nil
  edges := .nil
  lastFile := by simp [Contents.empty]

/-- Each table has its own counter. -/
def last (d : Database) : LastIds
  | .file => d.files.lastId
  | .fact => d.facts.lastId
  | .edge => d.edges.lastId

namespace Keeps

variable {d : Database} {c : Contents}

theorem hasRepository (h : d.Keeps c) (id : String) : d.hasRepository id = c.knows id :=
  forall₂_any h.repositories fun _ _ hr => by rw [RepositoryRow.id_eq hr]

theorem hasFile (h : d.Keeps c) (id : Int64) : d.hasFile id = c.hasFile id :=
  forall₂_any h.files fun _ _ hr => by rw [(FileRow.eq_of_toFile hr).1]

theorem hasPath (h : d.Keeps c) (repository path : String) :
    d.hasPath repository path = c.hasPath repository path :=
  forall₂_any h.files fun _ _ hr => by
    obtain ⟨-, hrepository, hpath⟩ := FileRow.eq_of_toFile hr
    rw [hrepository, hpath]

/-- The rows of a repository's files hold the ids of those. -/
theorem fileIds (h : d.Keeps c) (repository : String) :
    (d.files.rows.filter (fun f => f.repository == repository)).map (·.id) =
      c.idsOf repository := by
  have hrows : List.Forall₂ (fun row f => FileRow.toFile row = .ok f)
      (d.files.rows.filter (fun f => f.repository == repository)) (c.filesOf repository) :=
    forall₂_filter h.files fun _ _ hr => by rw [(FileRow.eq_of_toFile hr).2.1]
  have hids : List.Forall₂ (· = ·)
      ((d.files.rows.filter (fun f => f.repository == repository)).map (·.id))
      (c.idsOf repository) :=
    forall₂_map hrows fun _ _ hr => (FileRow.eq_of_toFile hr).1
  rwa [List.forall₂_eq_eq_eq] at hids

end Keeps

/-! ## Statements that store records -/

/-- There is a next id as long as there is room for it. -/
theorem nextId_eq {ρ : Type} {t : Table ρ} (h : t.lastId.toInt + 1 < Text.wordSize 63) :
    nextId t = .ok (t.lastId + 1) := by
  have hmax : t.lastId ≠ Int64.maxValue := by
    intro heq
    rw [heq] at h
    exact absurd h (by decide)
  simp [nextId, hmax]

theorem lt_next {i : Int64} (h : i.toInt + 1 < Text.wordSize 63) : i < i + 1 := by
  rw [Int64.lt_iff_toInt_lt, toInt_next h]
  omega

/-- A file is stored behind the others. -/
theorem insertFile_ok {d : Database} {c : Contents} (h : d.Keeps c) {f : NewFile}
    (hfits : f.Fits) (hknown : c.knows f.repository = true)
    (hfree : c.hasPath f.repository f.path = false)
    (hroom : d.files.lastId.toInt + 1 < Text.wordSize 63) :
    ∃ rows, insertFile f d = (.ok ⟨f, d.files.lastId + 1⟩,
        { d with files := ⟨rows, d.files.lastId + 1⟩ }) ∧
      Keeps { d with files := ⟨rows, d.files.lastId + 1⟩ }
        (c.addFiles [⟨f, d.files.lastId + 1⟩]) := by
  refine ⟨d.files.rows ++ [FileRow.ofFile (d.files.lastId + 1) f], ?_, ?_⟩
  · simp [insertFile, nextId_eq hroom, h.hasRepository, h.hasPath, hknown, hfree]
  · refine ⟨h.repositories, ?_, h.facts, h.edges, fun g hg => ?_⟩
    · exact List.rel_append h.files (.cons (FileRow.toFile_ofFile hfits _) .nil)
    · have hlt := lt_next hroom
      rw [Int64.lt_iff_toInt_lt] at hlt
      rcases List.mem_append.1 hg with hg | hg
      · have := h.lastFile g hg
        rw [Int64.le_iff_toInt_le] at this ⊢
        simp only
        omega
      · obtain rfl := List.mem_singleton.1 hg
        exact Int64.le_refl _

theorem insertFile_refused {d : Database} {c : Contents} (h : d.Keeps c) {f : NewFile}
    (hbad : ¬ (c.knows f.repository = true ∧ c.hasPath f.repository f.path = false)) :
    ∃ e d', insertFile f d = (.error e, d') := by
  unfold insertFile
  split
  · exact ⟨_, _, rfl⟩
  · rw [h.hasRepository, h.hasPath]
    split
    · exact ⟨_, _, rfl⟩
    split
    · exact ⟨_, _, rfl⟩
    · rename_i hpath hknown
      exact absurd ⟨by simpa using hknown, by simpa using hpath⟩ hbad

/-- Files that can be stored are stored one after the other. -/
theorem collect_insertFile_ok {d : Database} {c : Contents} (h : d.Keeps c) {new : List NewFile}
    (hadmits : c.Admits new) (hfits : ∀ f ∈ new, f.Fits)
    (hroom : d.files.lastId.toInt + new.length < Text.wordSize 63) :
    ∃ stored t, Command.collect insertFile new d = (.ok stored, { d with files := t }) ∧
      stored.map (·.toNewFile) = new ∧
      Numbered d.files.lastId t.lastId (stored.map (·.id)) ∧
      t.lastId.toInt = d.files.lastId.toInt + new.length ∧
      Keeps { d with files := t } (c.addFiles stored) := by
  induction new generalizing d c with
  | nil => exact ⟨[], d.files, rfl, rfl, .nil _ _, by simp, by simpa [Contents.addFiles] using h⟩
  | cons f new ih =>
    obtain ⟨hknown, hfree, hother, hrest⟩ := Contents.admits_cons.1 hadmits
    have hone : d.files.lastId.toInt + 1 < Text.wordSize 63 := by simp at hroom; omega
    obtain ⟨rows, hfirst, hkeeps⟩ :=
      insertFile_ok h (hfits f (by simp)) hknown hfree hone
    have hnext := toInt_next hone
    obtain ⟨stored, t, hrun, hnew, hnumbered, hid, hkeeps⟩ :=
      ih hkeeps (Contents.admits_addFile.2 ⟨hrest, hother⟩) (fun g hg => hfits g (by simp [hg]))
        (by simp only [hnext]; simp at hroom; omega)
    simp only [hnext] at hid hnumbered
    refine ⟨⟨f, d.files.lastId + 1⟩ :: stored, t, ?_, ?_, ?_, ?_, ?_⟩
    · simp only [Command.collect, Command.andThen, hfirst, hrun, Command.answer]
    · simp [hnew]
    · exact hnumbered.next hone (by omega)
    · rw [hid]
      simp
      omega
    · simpa [Contents.addFiles] using hkeeps

/-- Among files that cannot all be stored, one is refused. -/
theorem collect_insertFile_refused {d : Database} {c : Contents} (h : d.Keeps c)
    {new : List NewFile} (hadmits : ¬ c.Admits new) (hfits : ∀ f ∈ new, f.Fits)
    (hroom : d.files.lastId.toInt + new.length < Text.wordSize 63) :
    ∃ e d', Command.collect insertFile new d = (.error e, d') := by
  induction new generalizing d c with
  | nil => exact absurd (Contents.admits_nil c) hadmits
  | cons f new ih =>
    by_cases hf : c.knows f.repository = true ∧ c.hasPath f.repository f.path = false
    · have hone : d.files.lastId.toInt + 1 < Text.wordSize 63 := by simp at hroom; omega
      obtain ⟨rows, hfirst, hkeeps⟩ := insertFile_ok h (hfits f (by simp)) hf.1 hf.2 hone
      have hrest : ¬ (c.addFiles [⟨f, d.files.lastId + 1⟩]).Admits new := by
        intro hnew
        obtain ⟨hnew, hother⟩ := Contents.admits_addFile.1 hnew
        exact hadmits (Contents.admits_cons.2 ⟨hf.1, hf.2, hother, hnew⟩)
      obtain ⟨e, d', hrun⟩ := ih hkeeps hrest (fun g hg => hfits g (by simp [hg]))
        (by simp only [toInt_next hone]; simp at hroom; omega)
      exact ⟨e, d', by simp only [Command.collect, Command.andThen, hfirst, hrun]⟩
    · obtain ⟨e, d', hfirst⟩ := insertFile_refused h hf
      exact ⟨e, d', by simp only [Command.collect, Command.andThen, hfirst]⟩

/-- The facts of a stored file are stored one after the other. -/
theorem each_insertFact {d : Database} {c : Contents} (h : d.Keeps c) {file : Int64}
    {repository : String} (hfile : c.hasFile file = true) (hknown : c.knows repository = true)
    (facts : List Fact) (hroom : d.facts.lastId.toInt + facts.length < Text.wordSize 63) :
    ∃ new t, Command.each (insertFact file repository) facts d = (.ok (), { d with facts := t }) ∧
      new.map (fun x => (x.file, x.repository, x.fact)) =
        facts.map (fun a => (file, repository, a)) ∧
      Numbered d.facts.lastId t.lastId (new.map (·.id)) ∧
      t.lastId.toInt = d.facts.lastId.toInt + facts.length ∧
      Keeps { d with facts := t } { c with facts := c.facts ++ new } := by
  induction facts generalizing d c with
  | nil => exact ⟨[], d.facts, rfl, rfl, .nil _ _, by simp, by simpa using h⟩
  | cons f facts ih =>
    have hone : d.facts.lastId.toInt + 1 < Text.wordSize 63 := by simp at hroom; omega
    have hnext := toInt_next hone
    let row := FactRow.ofFact (d.facts.lastId + 1) file repository f
    have hkeeps : Keeps { d with facts := ⟨d.facts.rows ++ [row], d.facts.lastId + 1⟩ }
        { c with facts := c.facts ++ [⟨d.facts.lastId + 1, file, repository, f⟩] } :=
      ⟨h.repositories, h.files,
        List.rel_append h.facts (.cons (FactRow.toFact_ofFact _ _ _ _) .nil), h.edges, h.lastFile⟩
    have hfirst : insertFact file repository f d =
        (.ok (), { d with facts := ⟨d.facts.rows ++ [row], d.facts.lastId + 1⟩ }) := by
      simp [insertFact, nextId_eq hone, h.hasFile, h.hasRepository, hfile, hknown, row]
    obtain ⟨new, t, hrun, hnew, hnumbered, hid, hkeeps⟩ :=
      ih hkeeps hfile hknown (by simp only [hnext]; simp at hroom; omega)
    simp only [hnext] at hid hnumbered
    refine ⟨⟨d.facts.lastId + 1, file, repository, f⟩ :: new, t, ?_, ?_, ?_, ?_, ?_⟩
    · simp only [Command.each, Command.followedBy, Command.andThen, hfirst, hrun]
    · simp [hnew]
    · exact hnumbered.next hone (by omega)
    · rw [hid]
      simp
      omega
    · simpa using hkeeps

/-- The edges from a stored file are stored one after the other. -/
theorem each_insertEdge {d : Database} {c : Contents} (h : d.Keeps c) (edges : List Edge)
    (hknown : ∀ e ∈ edges, c.knows e.repository = true)
    (hsource : ∀ e ∈ edges, c.hasFile e.sourceFile = true)
    (htarget : ∀ e ∈ edges, ∀ t ∈ e.targetFile, c.hasFile t = true)
    (hroom : d.edges.lastId.toInt + edges.length < Text.wordSize 63) :
    ∃ new t, Command.each insertEdge edges d = (.ok (), { d with edges := t }) ∧
      new.map (·.toEdge) = edges ∧
      Numbered d.edges.lastId t.lastId (new.map (·.id)) ∧
      t.lastId.toInt = d.edges.lastId.toInt + edges.length ∧
      Keeps { d with edges := t } { c with edges := c.edges ++ new } := by
  induction edges generalizing d c with
  | nil => exact ⟨[], d.edges, rfl, rfl, .nil _ _, by simp, by simpa using h⟩
  | cons e edges ih =>
    have hone : d.edges.lastId.toInt + 1 < Text.wordSize 63 := by simp at hroom; omega
    have hnext := toInt_next hone
    let row := EdgeRow.ofEdge (d.edges.lastId + 1) e
    have hkeeps : Keeps { d with edges := ⟨d.edges.rows ++ [row], d.edges.lastId + 1⟩ }
        { c with edges := c.edges ++ [⟨e, d.edges.lastId + 1⟩] } :=
      ⟨h.repositories, h.files, h.facts,
        List.rel_append h.edges (.cons (EdgeRow.toEdge_ofEdge _ _) .nil), h.lastFile⟩
    have hpointed : e.targetFile.all d.hasFile = true := by
      rw [Option.all_eq_true]
      intro t ht
      rw [h.hasFile]
      exact htarget e (by simp) t ht
    have hfirst : insertEdge e d =
        (.ok (), { d with edges := ⟨d.edges.rows ++ [row], d.edges.lastId + 1⟩ }) := by
      simp [insertEdge, nextId_eq hone, h.hasFile, h.hasRepository, hknown e (by simp),
        hsource e (by simp), hpointed, row]
    obtain ⟨new, t, hrun, hnew, hnumbered, hid, hkeeps⟩ :=
      ih hkeeps (fun g hg => hknown g (by simp [hg])) (fun g hg => hsource g (by simp [hg]))
        (fun g hg => htarget g (by simp [hg])) (by simp only [hnext]; simp at hroom; omega)
    simp only [hnext] at hid hnumbered
    refine ⟨⟨e, d.edges.lastId + 1⟩ :: new, t, ?_, ?_, ?_, ?_, ?_⟩
    · simp only [Command.each, Command.followedBy, Command.andThen, hfirst, hrun]
    · simp [hnew]
    · exact hnumbered.next hone (by omega)
    · rw [hid]
      simp
      omega
    · simpa using hkeeps

/-- The rows of the facts and edges of a file are deleted. -/
theorem Keeps.without {d : Database} {c : Contents} (h : d.Keeps c) (file : Int64) :
    Keeps { d with
      facts.rows := d.facts.rows.filter (fun x => x.file != file)
      edges.rows := d.edges.rows.filter (fun e => e.sourceFile != file) }
      (c.replace file [] []) := by
  refine ⟨h.repositories, h.files, ?_, ?_, h.lastFile⟩
  · simp only [Contents.replace, List.append_nil]
    exact forall₂_filter h.facts fun _ _ hr => by rw [(FactRow.eq_of_toFact hr).1]
  · simp only [Contents.replace, List.append_nil]
    exact forall₂_filter h.edges fun _ _ hr => by rw [(EdgeRow.eq_of_toEdge hr).1]

/-- A file of the contents gets other facts and edges. -/
theorem replaceRows_keeps {d : Database} {c : Contents} (h : d.Keeps c) {f : StoredFile}
    (hf : f ∈ c.files) (hknown : c.knows f.repository = true) {facts : List Fact} {edges : List Edge}
    (hcheck : checkEdges f.id f.repository edges = .ok ())
    (htarget : ∀ e ∈ edges, ∀ t ∈ e.targetFile, c.hasFile t = true)
    (hfactRoom : d.facts.lastId.toInt + facts.length < Text.wordSize 63)
    (hedgeRoom : d.edges.lastId.toInt + edges.length < Text.wordSize 63) :
    ∃ newFacts newEdges factRows edgeRows,
      replaceRows f.id f.repository facts edges d =
        (.ok (), { d with facts := factRows, edges := edgeRows }) ∧
      newFacts.map (fun x => (x.file, x.repository, x.fact)) =
        facts.map (fun a => (f.id, f.repository, a)) ∧
      newEdges.map (·.toEdge) = edges ∧
      Numbered d.facts.lastId factRows.lastId (newFacts.map (·.id)) ∧
      Numbered d.edges.lastId edgeRows.lastId (newEdges.map (·.id)) ∧
      factRows.lastId.toInt = d.facts.lastId.toInt + facts.length ∧
      edgeRows.lastId.toInt = d.edges.lastId.toInt + edges.length ∧
      Keeps { d with facts := factRows, edges := edgeRows } (c.replace f.id newFacts newEdges) := by
  have hfile : c.hasFile f.id = true := Contents.hasFile_iff.2 ⟨f, hf, rfl⟩
  have hedges := checkEdges_iff.1 hcheck
  obtain ⟨newFacts, factRows, hrunFacts, hnewFacts, hfactIds, hfactLast, hkeeps⟩ :=
    each_insertFact (h.without f.id) hfile hknown facts hfactRoom
  obtain ⟨newEdges, edgeRows, hrunEdges, hnewEdges, hedgeIds, hedgeLast, hkeeps⟩ :=
    each_insertEdge hkeeps edges (fun e he => by rw [(hedges e he).2]; exact hknown)
      (fun e he => by rw [(hedges e he).1]; exact hfile) htarget hedgeRoom
  refine ⟨newFacts, newEdges, factRows, edgeRows, ?_, hnewFacts, hnewEdges, hfactIds, hedgeIds,
    hfactLast, hedgeLast, ?_⟩
  · have hthere : d.hasFile f.id = true := by rw [h.hasFile, hfile]
    simp only [replaceRows, hthere, Bool.not_true, Bool.false_eq_true, if_false,
      Command.followedBy, Command.andThen, deleteFactsOf, deleteEdgesOf]
    rw [hrunFacts]
    simp only
    rw [hrunEdges]
  · simpa [Contents.replace] using hkeeps

/-! ## Statements that delete -/

theorem toEdge_detach {row : EdgeRow} {e : StoredEdge} (h : row.toEdge = .ok e)
    (files : List Int64) : (detach files row).toEdge = .ok (e.detached files) := by
  simp only [EdgeRow.toEdge, bind, Except.bind, pure, Except.pure] at h ⊢
  split at h
  · cases h
  · rename_i line hline
    simp only [Except.ok.injEq] at h
    simp only [detach, hline, ← h, StoredEdge.detached]

theorem deleteFiles_answer {d : Database} {c : Contents} (h : d.Keeps c) (repository : String) :
    (deleteFiles repository d).1 = .ok (c.filesOf repository).length := by
  simp [deleteFiles, h.fileIds, Contents.idsOf]

/-- The files of a repository are deleted with all that hangs on them. -/
theorem deleteFiles_keeps {d : Database} {c : Contents} (h : d.Keeps c) (repository : String) :
    Keeps (deleteFiles repository d).2 (c.clear repository) := by
  simp only [deleteFiles, h.fileIds]
  refine ⟨h.repositories, ?_, ?_, ?_, fun f hf => h.lastFile f (List.mem_filter.1 hf).1⟩
  · exact forall₂_filter h.files fun _ _ hr => by rw [(FileRow.eq_of_toFile hr).2.1]
  · exact forall₂_filter h.facts fun _ _ hr => by rw [(FactRow.eq_of_toFact hr).1]
  · have hkept : List.Forall₂ (fun row e => EdgeRow.toEdge row = .ok e)
        (d.edges.rows.filter (fun e => !(c.idsOf repository).contains e.sourceFile))
        (c.edges.filter (fun e => !(c.idsOf repository).contains e.sourceFile)) :=
      forall₂_filter h.edges fun _ _ hr => by rw [(EdgeRow.eq_of_toEdge hr).1]
    exact forall₂_map hkept fun _ _ hr => toEdge_detach hr _

theorem last_deleteFiles (d : Database) (repository : String) :
    last (deleteFiles repository d).2 = last d := by
  funext k
  cases k <;> rfl

/-- A repository is deleted with its files, and with all rows that name it. -/
theorem deleteRepositoryRow_leaves {d : Database} {c : Contents} (h : d.Keeps c) (id : String) :
    Keeps (deleteRepositoryRow id d).2 { c.delete id with
      facts := (c.clear id).facts.filter (fun x => x.repository != id)
      edges := (c.clear id).edges.filter (fun e => e.repository != id) } := by
  have hrest : Keeps { d with repositories := d.repositories.filter (fun r => r.id != id) }
      { c with repositories := c.repositories.filter (fun r => r.id != id) } :=
    ⟨forall₂_filter h.repositories fun _ _ hr => by rw [RepositoryRow.id_eq hr], h.files, h.facts,
      h.edges, h.lastFile⟩
  have hcleared := deleteFiles_keeps hrest id
  exact ⟨hcleared.repositories, hcleared.files,
    forall₂_filter hcleared.facts fun _ _ hr => by rw [(FactRow.eq_of_toFact hr).2],
    forall₂_filter hcleared.edges fun _ _ hr => by rw [(EdgeRow.eq_of_toEdge hr).2.1],
    hcleared.lastFile⟩

/-- A repository is deleted with all that was stored for it. -/
theorem deleteRepositoryRow_keeps {d : Database} {c : Contents} (h : d.Keeps c) (hw : c.Whole)
    (id : String) : Keeps (deleteRepositoryRow id d).2 (c.delete id) := by
  have hkept := deleteRepositoryRow_leaves h id
  -- the rows that name the repository are gone with its files
  have hfacts : (c.clear id).facts.filter (fun x => x.repository != id) = (c.clear id).facts := by
    refine List.filter_eq_self.2 fun x hx => ?_
    obtain ⟨hx, hout⟩ := List.mem_filter.1 hx
    simpa [hw.fact_mem_idsOf hx] using hout
  have hedges : (c.clear id).edges.filter (fun e => e.repository != id) = (c.clear id).edges := by
    refine List.filter_eq_self.2 fun e' he' => ?_
    obtain ⟨e, he, rfl⟩ := List.mem_map.1 he'
    obtain ⟨he, hout⟩ := List.mem_filter.1 he
    simpa [StoredEdge.detached, hw.edge_mem_idsOf he] using hout
  rwa [hfacts, hedges] at hkept

theorem last_deleteRepositoryRow (d : Database) (id : String) :
    last (deleteRepositoryRow id d).2 = last d := by
  funext k
  cases k <;> rfl

/-! ## Repositories -/

theorem selectRepository_eq {d : Database} {c : Contents} (h : d.Keeps c) (id : String) :
    selectRepository id d = .ok (c.repositoryOf id) := by
  have hrel : Option.Rel (fun row r => RepositoryRow.toRepository row = .ok r)
      (d.repositories.find? (fun r => r.id == id)) (c.repositoryOf id) :=
    forall₂_find? h.repositories fun _ _ hr => by rw [RepositoryRow.id_eq hr]
  unfold selectRepository
  cases hrow : d.repositories.find? (fun r => r.id == id) with
  | none =>
    rw [hrow] at hrel
    cases hof : c.repositoryOf id with
    | none => rfl
    | some r =>
      rw [hof] at hrel
      cases hrel
  | some row =>
    rw [hrow] at hrel
    cases hof : c.repositoryOf id with
    | none =>
      rw [hof] at hrel
      cases hrel
    | some r =>
      rw [hof] at hrel
      cases hrel with
      | some hr =>
        simp only [hr]
        rfl

/-- The record of a repository is written over the one before, or behind the others. -/
theorem upsertRepository_keeps {d : Database} {c : Contents} (h : d.Keeps c)
    {row : RepositoryRow} {r : Repository} (hr : row.toRepository = .ok r) :
    Keeps (upsertRepository row d).2 (c.putRepository r) := by
  have hid := RepositoryRow.id_eq hr
  refine ⟨?_, h.files, h.facts, h.edges, h.lastFile⟩
  simp only [upsertRepository, Contents.putRepository, hid, h.hasRepository]
  split
  · refine forall₂_map h.repositories fun o o' ho => ?_
    rw [RepositoryRow.id_eq ho]
    split
    · exact hr
    · exact ho
  · exact List.rel_append h.repositories (.cons hr .nil)

theorem updateRow_keeps {d : Database} {c : Contents} (h : d.Keeps c) (id : String)
    (u : RepositoryUpdate) :
    ∃ kept rows, updateRow id u d = (.ok (c.updated id u), { d with repositories := rows }) ∧
      kept.id = id ∧ ((c.updated id u).Fits → kept = c.updated id u) ∧
      Keeps { d with repositories := rows } (c.putRepository kept) := by
  obtain ⟨kept, hkept, hid, hfits⟩ :=
    RepositoryRow.exists_toRepository_ofRepository (c.updated id u)
  refine ⟨kept, (upsertRepository (RepositoryRow.ofRepository (c.updated id u)) d).2.repositories,
    ?_, hid.trans (c.updated_id id u), hfits, upsertRepository_keeps h hkept⟩
  simp only [updateRow, query, Command.andThen, Command.ask, selectRepository_eq h, Except.mapError,
    Command.followedBy, Command.answer, upsertRepository]
  rfl

/-! ## The store -/

theorem transaction_ok {α : Type} {x : Command Database α} {d d' : Database} {a : α}
    (h : x d = (.ok a, d')) : transaction x d = (.ok a, d') := by
  simp only [transaction, h]

theorem transaction_error {α : Type} {x : Command Database α} {d d' : Database} {e : Failure}
    (h : x d = (.error e, d')) : transaction x d = (.error e, d) := by
  simp only [transaction, h]

theorem query_eq {α : Type} {read : Database → Except Issue α} {d : Database} {a : α}
    (h : read d = .ok a) : query read d = (.ok a, d) := by
  simp only [query, Command.ask, h, Except.mapError]

instance : LawfulStorage Database where
  Keeps := Keeps
  last := last
  file_le_last h := h.lastFile
  insertFiles_ok {d c new} h hadmits hfits hroom := by
    obtain ⟨stored, t, hrun, hnew, hnumbered, hid, hkeeps⟩ :=
      collect_insertFile_ok h hadmits hfits (hroom .file)
    refine ⟨stored, { d with files := t }, transaction_ok hrun, hnew, hnumbered, ?_, hkeeps⟩
    intro k
    cases k <;> simp only [last] <;> omega
  insertFiles_refused {d c new} h hadmits hfits hroom := by
    obtain ⟨e, d', hrun⟩ := collect_insertFile_refused h hadmits hfits (hroom .file)
    exact ⟨e, transaction_error hrun⟩
  files {d c} repository h :=
    query_eq (mapM_eq_ok (forall₂_filter h.files fun _ _ hr => by
      rw [(FileRow.eq_of_toFile hr).2.1]))
  clearFiles {d c} repository h _ :=
    ⟨(deleteFiles repository d).2, Prod.ext (deleteFiles_answer h repository) rfl,
      by rw [last_deleteFiles]; exact .refl _, deleteFiles_keeps h repository⟩
  replaceFacts_ok {d c f facts edges} h hw hf hcheck htarget hroom := by
    have hfactRoom : d.facts.lastId.toInt + facts.length < Text.wordSize 63 := by
      have := hroom .fact
      simp only [last] at this
      omega
    have hedgeRoom : d.edges.lastId.toInt + edges.length < Text.wordSize 63 := by
      have := hroom .edge
      simp only [last] at this
      omega
    obtain ⟨newFacts, newEdges, factRows, edgeRows, hrun, hfacts, hedges, hfactIds, hedgeIds,
      hfactLast, hedgeLast, hkeeps⟩ :=
        replaceRows_keeps h hf (hw.known f hf) hcheck htarget hfactRoom hedgeRoom
    refine ⟨newFacts, newEdges, { d with facts := factRows, edges := edgeRows }, ?_, hfacts, hedges,
      hfactIds, hedgeIds, ?_, hkeeps⟩
    · simp only [Storage.replaceFacts, hcheck]
      exact transaction_ok hrun
    · intro k
      cases k <;> simp only [last] <;> omega
  replaceFacts_refused {d c file repository edges} facts h hbad := by
    simp only [Storage.replaceFacts]
    cases hcheck : checkEdges file repository edges with
    | error e => exact ⟨e, rfl⟩
    | ok _ =>
      have hmissing : d.hasFile file = false := by
        rw [h.hasFile]
        rcases hbad with hbad | hbad
        · exact absurd hcheck hbad
        · exact hbad
      exact ⟨_, transaction_error (by
        simp only [replaceRows, hmissing, Bool.not_false, if_true]; rfl)⟩
  factsOfFile {d c} file h :=
    query_eq (mapM_eq_ok (forall₂_filter h.facts fun _ _ hr => by
      rw [(FactRow.eq_of_toFact hr).1]))
  facts {d c} repository h :=
    query_eq (mapM_eq_ok (forall₂_filter h.facts fun _ _ hr => by
      rw [(FactRow.eq_of_toFact hr).2]))
  edges {d c} repository h :=
    query_eq (mapM_eq_ok (forall₂_filter h.edges fun _ _ hr => by
      rw [(EdgeRow.eq_of_toEdge hr).2.1]))
  updateRepository {d c} id u h := by
    obtain ⟨kept, rows, hrun, hid, hfits, hkeeps⟩ := updateRow_keeps h id u
    refine ⟨kept, { d with repositories := rows }, transaction_ok hrun, hid, hfits, ?_, hkeeps⟩
    intro k
    cases k <;> simp [last]
  repository {d c} id h := query_eq (selectRepository_eq h id)
  deleteRepository {d c} id h hw := by
    refine ⟨(deleteRepositoryRow id d).2, Prod.ext ?_ rfl, ?_, deleteRepositoryRow_keeps h hw id⟩
    · change Except.ok (d.hasRepository id) = _
      rw [h.hasRepository]
    · rw [last_deleteRepositoryRow]
      exact .refl _

end CodeSurvey.Relational.Database
