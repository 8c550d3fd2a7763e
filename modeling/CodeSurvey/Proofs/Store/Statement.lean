-- What a statement of the database has done once it is answered, whatever it was
-- given. A statement that stores a record has found the keys that the record needs,
-- and has given it an id above all others of its table.
import CodeSurvey.Proofs.Store.Relational

namespace CodeSurvey

/-- Where two operations have answered one after the other, each has. -/
theorem Command.of_andThen_ok {σ α β : Type} {x : Command σ α} {f : α → Command σ β} {s s' : σ}
    {b : β} (h : x.andThen f s = (.ok b, s')) :
    ∃ a mid, x s = (.ok a, mid) ∧ f a mid = (.ok b, s') := by
  unfold Command.andThen at h
  split at h
  · rename_i a mid hx
    exact ⟨a, mid, hx, h⟩
  · cases h

namespace Relational.Database

/-! ## Ids -/

theorem lt_of_nextId {ρ : Type} {t : Table ρ} {id : Int64} (h : nextId t = .ok id) :
    t.lastId < id := by
  unfold nextId at h
  split at h
  · cases h
  · rename_i hne
    obtain rfl := Except.ok.inj h
    have hle := Int64.toInt_le t.lastId
    have hne : t.lastId.toInt ≠ Int64.maxValue.toInt := fun heq => hne (Int64.toInt_inj.1 heq)
    rw [Int64.lt_iff_toInt_lt, toInt_next]
    · omega
    · have hsize : (Text.wordSize 63 : Int) = 2 ^ 63 := rfl
      have hmax : Int64.maxValue.toInt = 2 ^ 63 - 1 := rfl
      omega

/-! ## Records -/

theorem insertFile_answered {f : NewFile} {d d' : Database} {g : StoredFile}
    (h : insertFile f d = (.ok g, d')) :
    ∃ id, d.files.lastId < id ∧ g = ⟨f, id⟩ ∧ d.hasRepository f.repository = true ∧
      d.hasPath f.repository f.path = false ∧
      d' = { d with files := ⟨d.files.rows ++ [FileRow.ofFile id f], id⟩ } := by
  unfold insertFile at h
  split at h
  · cases h
  · rename_i id hid
    split at h
    · cases h
    · rename_i hpath
      split at h
      · cases h
      · rename_i hknown
        obtain ⟨hg, rfl⟩ := Prod.mk.inj h
        exact ⟨id, lt_of_nextId hid, (Except.ok.inj hg).symm, by simpa using hknown,
          by simpa using hpath, rfl⟩

theorem insertFact_answered {file : Int64} {repository : String} {f : Fact} {d d' : Database}
    (h : insertFact file repository f d = (.ok (), d')) :
    ∃ id, d.facts.lastId < id ∧ d.hasFile file = true ∧ d.hasRepository repository = true ∧
      d' = { d with facts := ⟨d.facts.rows ++ [FactRow.ofFact id file repository f], id⟩ } := by
  unfold insertFact at h
  split at h
  · cases h
  · rename_i id hid
    split at h
    · cases h
    · rename_i hkeys
      obtain ⟨-, rfl⟩ := Prod.mk.inj h
      simp only [Bool.or_eq_true, Bool.not_eq_true', not_or, Bool.not_eq_false] at hkeys
      exact ⟨id, lt_of_nextId hid, hkeys.1, hkeys.2, rfl⟩

theorem insertEdge_answered {e : Edge} {d d' : Database} (h : insertEdge e d = (.ok (), d')) :
    ∃ id, d.edges.lastId < id ∧ d.hasRepository e.repository = true ∧
      d.hasFile e.sourceFile = true ∧ (∀ t ∈ e.targetFile, d.hasFile t = true) ∧
      d' = { d with edges := ⟨d.edges.rows ++ [EdgeRow.ofEdge id e], id⟩ } := by
  unfold insertEdge at h
  split at h
  · cases h
  · rename_i id hid
    split at h
    · cases h
    · rename_i hkeys
      obtain ⟨-, rfl⟩ := Prod.mk.inj h
      simp only [Bool.or_eq_true, Bool.not_eq_true', not_or, Bool.not_eq_false] at hkeys
      exact ⟨id, lt_of_nextId hid, hkeys.1.1, hkeys.1.2, Option.all_eq_true _ _ |>.1 hkeys.2, rfl⟩

/-! ## Transactions -/

theorem transaction_answered {α : Type} {c : Command Database α} {d d' : Database} {a : α}
    (h : transaction c d = (.ok a, d')) : c d = (.ok a, d') := by
  unfold transaction at h
  split at h
  · rename_i b changed hc
    rw [hc, h]
  · cases h

theorem transaction_refused {α : Type} {c : Command Database α} {d : Database} {e : Failure}
    (h : (transaction c d).1 = .error e) : (transaction c d).2 = d := by
  unfold transaction at h ⊢
  split at h
  · cases h
  · rfl

/-! ## Rows -/

/-- The row that is written for a fact. -/
def rowOfFact (x : StoredFact) : FactRow := FactRow.ofFact x.id x.file x.repository x.fact

/-- The row that is written for an edge. -/
def rowOfEdge (e : StoredEdge) : EdgeRow := EdgeRow.ofEdge e.id e.toEdge

theorem toFact_rowsOfFacts (facts : List StoredFact) :
    List.Forall₂ (fun row x => FactRow.toFact row = .ok x) (facts.map rowOfFact) facts :=
  List.forall₂_map_left_iff.2 (List.forall₂_same.2 fun _ _ => FactRow.toFact_ofFact _ _ _ _)

theorem toEdge_rowsOfEdges (edges : List StoredEdge) :
    List.Forall₂ (fun row e => EdgeRow.toEdge row = .ok e) (edges.map rowOfEdge) edges :=
  List.forall₂_map_left_iff.2 (List.forall₂_same.2 fun _ _ => EdgeRow.toEdge_ofEdge _ _)

/-- Facts that are stored get a row each, under ids that count up. -/
theorem each_insertFact_answered {file : Int64} {repository : String} {facts : List Fact}
    {d d' : Database}
    (hrun : Command.each (insertFact file repository) facts d = (.ok (), d')) :
    ∃ new : List StoredFact, new.map (fun x => (x.file, x.repository, x.fact)) =
        facts.map (fun a => (file, repository, a)) ∧
      Numbered d.facts.lastId d'.facts.lastId (new.map (·.id)) ∧
      d.facts.lastId ≤ d'.facts.lastId ∧
      d' = { d with facts := ⟨d.facts.rows ++ new.map rowOfFact, d'.facts.lastId⟩ } := by
  induction facts generalizing d with
  | nil =>
    obtain ⟨-, rfl⟩ := Prod.mk.inj hrun
    exact ⟨[], rfl, .nil _ _, Int64.le_refl _, by simp⟩
  | cons f facts ih =>
    obtain ⟨_, mid, hfirst, hrest⟩ := Command.of_andThen_ok hrun
    obtain ⟨id, hid, -, -, rfl⟩ := insertFact_answered hfirst
    obtain ⟨new, hrecords, hids, hle, hd'⟩ := ih hrest
    refine ⟨⟨id, file, repository, f⟩ :: new, by simp [hrecords], hids.cons hid hle,
      Int64.le_trans (Int64.le_of_lt hid) hle, ?_⟩
    rw [hd']
    simp [rowOfFact]

/-- Edges that are stored lead to stored files, or to none. -/
theorem each_insertEdge_answered {edges : List Edge} {d d' : Database}
    (hrun : Command.each insertEdge edges d = (.ok (), d')) :
    ∃ new : List StoredEdge, new.map (·.toEdge) = edges ∧
      (∀ e ∈ edges, ∀ t ∈ e.targetFile, d.hasFile t = true) ∧
      Numbered d.edges.lastId d'.edges.lastId (new.map (·.id)) ∧
      d.edges.lastId ≤ d'.edges.lastId ∧
      d' = { d with edges := ⟨d.edges.rows ++ new.map rowOfEdge, d'.edges.lastId⟩ } := by
  induction edges generalizing d with
  | nil =>
    obtain ⟨-, rfl⟩ := Prod.mk.inj hrun
    exact ⟨[], rfl, by simp, .nil _ _, Int64.le_refl _, by simp⟩
  | cons e edges ih =>
    obtain ⟨_, mid, hfirst, hrest⟩ := Command.of_andThen_ok hrun
    obtain ⟨id, hid, -, -, htarget, rfl⟩ := insertEdge_answered hfirst
    obtain ⟨new, hrecords, htargets, hids, hle, hd'⟩ := ih hrest
    refine ⟨⟨e, id⟩ :: new, by simp [hrecords], List.forall_mem_cons.2 ⟨htarget, htargets⟩,
      hids.cons hid hle, Int64.le_trans (Int64.le_of_lt hid) hle, ?_⟩
    rw [hd']
    simp [rowOfEdge]

/-- The rows that stand for a file instead of those before. -/
structure Replaced (file : Int64) (newFacts : List StoredFact) (newEdges : List StoredEdge)
    (d d' : Database) : Prop where
  facts : Numbered d.facts.lastId d'.facts.lastId (newFacts.map (·.id))
  factCounter : d.facts.lastId ≤ d'.facts.lastId
  edges : Numbered d.edges.lastId d'.edges.lastId (newEdges.map (·.id))
  edgeCounter : d.edges.lastId ≤ d'.edges.lastId
  rows : d' = { d with
    facts := ⟨d.facts.rows.filter (fun x => x.file != file) ++ newFacts.map rowOfFact,
      d'.facts.lastId⟩
    edges := ⟨d.edges.rows.filter (fun e => e.sourceFile != file) ++ newEdges.map rowOfEdge,
      d'.edges.lastId⟩ }

/-- Where the rows of a file are replaced, the file is there, and edges lead to stored files. -/
theorem replaceRows_answered {file : Int64} {repository : String} {facts : List Fact}
    {edges : List Edge} {d d' : Database}
    (hrun : replaceRows file repository facts edges d = (.ok (), d')) :
    ∃ newFacts newEdges, Replaced file newFacts newEdges d d' ∧ d.hasFile file = true ∧
      newFacts.map (fun x => (x.file, x.repository, x.fact)) =
        facts.map (fun a => (file, repository, a)) ∧
      newEdges.map (·.toEdge) = edges ∧ ∀ e ∈ edges, ∀ t ∈ e.targetFile, d.hasFile t = true := by
  unfold replaceRows at hrun
  split at hrun
  · cases hrun
  · rename_i hthere
    obtain ⟨_, mid, hfacts, hrest⟩ := Command.of_andThen_ok hrun
    obtain ⟨-, rfl⟩ := Prod.mk.inj hfacts
    obtain ⟨_, mid, hedges, hrest⟩ := Command.of_andThen_ok hrest
    obtain ⟨-, rfl⟩ := Prod.mk.inj hedges
    obtain ⟨_, mid, hfacts, hedges⟩ := Command.of_andThen_ok hrest
    obtain ⟨newFacts, hnewFacts, hfactIds, hfactLast, hmid⟩ := each_insertFact_answered hfacts
    obtain ⟨newEdges, hnewEdges, htargets, hedgeIds, hedgeLast, hd'⟩ :=
      each_insertEdge_answered hedges
    rw [hmid] at hedgeIds hedgeLast hd' htargets
    have hsame : d'.facts.lastId = mid.facts.lastId := by rw [hd']
    refine ⟨newFacts, newEdges, ⟨?_, ?_, hedgeIds, hedgeLast, ?_⟩, by simpa using hthere,
      hnewFacts, hnewEdges, htargets⟩
    · rw [hsame]
      exact hfactIds
    · rw [hsame]
      exact hfactLast
    · rw [hsame]
      exact hd'

/-! ## Contents -/

section Contents

variable {d d' : Database} {c : Contents}

/-- A file that is stored was admitted, and has an id above all others. -/
theorem insertFile_leaves (h : d.Keeps c) {f : NewFile} {stored : StoredFile}
    (hrun : insertFile f d = (.ok stored, d')) :
    ∃ kept : StoredFile, d'.Keeps (c.addFiles [kept]) ∧ kept.key = f.key ∧
      c.knows f.repository = true ∧ c.hasPath f.repository f.path = false ∧
      ∀ g ∈ c.files, g.id < kept.id := by
  obtain ⟨id, hid, -, hknown, hfree, rfl⟩ := insertFile_answered hrun
  obtain ⟨kept, hkept, rfl, hrepository, hpath⟩ := FileRow.exists_toFile_ofFile id f
  have habove : ∀ g ∈ c.files, g.id < kept.id := by
    intro g hg
    have hle := h.lastFile g hg
    rw [Int64.le_iff_toInt_le] at hle
    rw [Int64.lt_iff_toInt_lt] at hid ⊢
    omega
  refine ⟨kept, ⟨h.repositories, List.rel_append h.files (.cons hkept .nil), h.facts, h.edges, ?_⟩,
    Prod.ext hrepository hpath, by rw [← h.hasRepository, hknown], by rw [← h.hasPath, hfree],
    habove⟩
  intro g hg
  rcases List.mem_append.1 hg with hg | hg
  · exact Int64.le_of_lt (habove g hg)
  · rw [List.mem_singleton.1 hg]
    exact Int64.le_refl _

/-- Files that are stored one after the other were admitted together. -/
theorem collect_insertFile_leaves (h : d.Keeps c) (hd : c.Distinct) {new : List NewFile}
    {stored : List StoredFile} (hrun : Command.collect insertFile new d = (.ok stored, d')) :
    ∃ kept : List StoredFile, d'.Keeps (c.addFiles kept) ∧ c.Admits new ∧
      kept.map (·.key) = new.map (·.key) ∧ (c.addFiles kept).Distinct := by
  induction new generalizing d c stored with
  | nil =>
    obtain ⟨-, rfl⟩ := Prod.mk.inj hrun
    have hsame : c.addFiles [] = c := by simp [Contents.addFiles]
    exact ⟨[], by rwa [hsame], c.admits_nil, rfl, by rwa [hsame]⟩
  | cons f new ih =>
    obtain ⟨first, mid, hfirst, hrest⟩ := Command.of_andThen_ok hrun
    obtain ⟨others, mid', hothers, hanswer⟩ := Command.of_andThen_ok hrest
    obtain ⟨-, rfl⟩ := Prod.mk.inj hanswer
    obtain ⟨one, hone, hkey, hknown, hfree, habove⟩ := insertFile_leaves h hfirst
    have hdistinct : (c.addFiles [one]).Distinct := by
      unfold Contents.Distinct Contents.addFiles
      rw [List.map_append]
      refine List.nodup_append.2 ⟨hd, List.nodup_singleton _, ?_⟩
      rintro i hi j hj rfl
      obtain ⟨g, hg, rfl⟩ := List.mem_map.1 hi
      have hlt := habove g hg
      rw [List.mem_singleton.1 hj, Int64.lt_iff_toInt_lt] at hlt
      exact Int.lt_irrefl _ hlt
    obtain ⟨kept, hkept, hadmits, hkeys, hkeptDistinct⟩ := ih hone hdistinct hothers
    obtain ⟨hnew, hother⟩ := Contents.admits_addFile.1 hadmits
    have hsame : (c.addFiles [one]).addFiles kept = c.addFiles (one :: kept) := by
      simp [Contents.addFiles]
    rw [hsame] at hkept hkeptDistinct
    refine ⟨one :: kept, hkept, Contents.admits_cons.2 ⟨hknown, hfree, ?_, hnew⟩, ?_, hkeptDistinct⟩
    · rwa [← hkey]
    · rw [List.map_cons, List.map_cons, hkeys, hkey]

theorem Replaced.leaves {file : Int64} {newFacts : List StoredFact} {newEdges : List StoredEdge}
    (hrep : Replaced file newFacts newEdges d d') (h : d.Keeps c) :
    d'.Keeps (c.replace file newFacts newEdges) := by
  have hout := h.without file
  simp only [Contents.replace, List.append_nil] at hout
  rw [hrep.rows]
  exact ⟨h.repositories, h.files, List.rel_append hout.facts (toFact_rowsOfFacts newFacts),
    List.rel_append hout.edges (toEdge_rowsOfEdges newEdges), h.lastFile⟩

/-- The file gets other facts and edges. -/
theorem replaceRows_leaves (h : d.Keeps c) {file : Int64} {repository : String}
    {facts : List Fact} {edges : List Edge}
    (hrun : replaceRows file repository facts edges d = (.ok (), d')) :
    ∃ newFacts newEdges, d'.Keeps (c.replace file newFacts newEdges) ∧ c.hasFile file = true ∧
      newFacts.map (fun x => (x.file, x.repository, x.fact)) =
        facts.map (fun a => (file, repository, a)) ∧
      newEdges.map (·.toEdge) = edges ∧ ∀ e ∈ edges, ∀ t ∈ e.targetFile, c.hasFile t = true := by
  obtain ⟨newFacts, newEdges, hrep, hfile, hnewFacts, hnewEdges, htargets⟩ :=
    replaceRows_answered hrun
  refine ⟨newFacts, newEdges, hrep.leaves h, ?_, hnewFacts, hnewEdges, fun e he t ht => ?_⟩
  · rw [← h.hasFile, hfile]
  · rw [← h.hasFile, htargets e he t ht]

end Contents

end Relational.Database

end CodeSurvey
