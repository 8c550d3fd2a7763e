-- What a store holds, whatever it keeps that in, and what its operations make
-- of it. Everything that is stored hangs together: a file belongs to a known
-- repository, and a fact or an edge to a stored file of its own repository.
import CodeSurvey.Proofs.Store.Rows
import CodeSurvey.Store.Operation
import Mathlib.Data.List.Nodup

namespace CodeSurvey

/-- What a store holds, each kind in the order in which it was stored. -/
structure Contents where
  repositories : List Repository
  files : List StoredFile
  facts : List StoredFact
  edges : List StoredEdge

/-- What tells a file from the others: its repository, and its path there. -/
def NewFile.key (f : NewFile) : String × String := (f.repository, f.path)

/-- The edge without its target when that is among the files. -/
def StoredEdge.detached (files : List Int64) (e : StoredEdge) : StoredEdge :=
  { e with targetFile := e.targetFile.filter (fun t => !files.contains t) }

namespace Contents

/-- Nothing is stored. -/
def empty : Contents := ⟨[], [], [], []⟩

/-! ## Questions -/

/-- The repository is known. -/
def knows (c : Contents) (id : String) : Bool := c.repositories.any (fun r => r.id == id)

/-- A file has the id. -/
def hasFile (c : Contents) (id : Int64) : Bool := c.files.any (fun f => f.id == id)

/-- A file of the repository has the path. -/
def hasPath (c : Contents) (repository path : String) : Bool :=
  c.files.any (fun f => f.repository == repository && f.path == path)

/-- The record of a repository. -/
def repositoryOf (c : Contents) (id : String) : Option Repository :=
  c.repositories.find? (fun r => r.id == id)

def filesOf (c : Contents) (repository : String) : List StoredFile :=
  c.files.filter (fun f => f.repository == repository)

def idsOf (c : Contents) (repository : String) : List Int64 := (c.filesOf repository).map (·.id)

def factsOfFile (c : Contents) (file : Int64) : List StoredFact :=
  c.facts.filter (fun x => x.file == file)

def factsOf (c : Contents) (repository : String) : List StoredFact :=
  c.facts.filter (fun x => x.repository == repository)

def edgesOf (c : Contents) (repository : String) : List StoredEdge :=
  c.edges.filter (fun e => e.repository == repository)

def edgesFrom (c : Contents) (file : Int64) : List StoredEdge :=
  c.edges.filter (fun e => e.sourceFile == file)

/-- The record of a repository, once an update is applied. -/
def updated (c : Contents) (id : String) (u : RepositoryUpdate) : Repository :=
  ((c.repositoryOf id).getD (Repository.fresh id)).apply u

/-- All of the files can be stored: their repositories are known, and no two files of a
repository come to one path. -/
structure Admits (c : Contents) (new : List NewFile) : Prop where
  known : ∀ f ∈ new, c.knows f.repository = true
  free : ∀ f ∈ new, c.hasPath f.repository f.path = false
  distinct : (new.map NewFile.key).Nodup

/-! ## Changes -/

/-- More files, behind the others. -/
def addFiles (c : Contents) (new : List StoredFile) : Contents := { c with files := c.files ++ new }

/-- The files of a repository are gone, with their facts and the edges from them, and edges to
them have lost their target. -/
def clear (c : Contents) (repository : String) : Contents where
  repositories := c.repositories
  files := c.files.filter (fun f => f.repository != repository)
  facts := c.facts.filter (fun x => !(c.idsOf repository).contains x.file)
  edges := (c.edges.filter (fun e => !(c.idsOf repository).contains e.sourceFile)).map
    (StoredEdge.detached (c.idsOf repository))

/-- Other facts and edges for a file, behind those of the other files. -/
def replace (c : Contents) (file : Int64) (facts : List StoredFact) (edges : List StoredEdge) :
    Contents :=
  { c with
    facts := c.facts.filter (fun x => x.file != file) ++ facts
    edges := c.edges.filter (fun e => e.sourceFile != file) ++ edges }

/-- A repository written over the one with its id, or behind the others. -/
def putRepository (c : Contents) (r : Repository) : Contents :=
  { c with repositories :=
    if c.knows r.id then c.repositories.map (fun o => if o.id == r.id then r else o)
    else c.repositories ++ [r] }

/-- A repository is gone with all that was stored for it. -/
def delete (c : Contents) (repository : String) : Contents :=
  { c.clear repository with
    repositories := c.repositories.filter (fun r => r.id != repository) }

/-! ## What hangs together -/

/-- Every record hangs on records that are stored. -/
structure Whole (c : Contents) : Prop where
  distinct : (c.files.map (·.id)).Nodup
  known : ∀ f ∈ c.files, c.knows f.repository = true
  fact : ∀ x ∈ c.facts, ∃ f ∈ c.files, f.id = x.file ∧ f.repository = x.repository
  edge : ∀ e ∈ c.edges, ∃ f ∈ c.files, f.id = e.sourceFile ∧ f.repository = e.repository
  target : ∀ e ∈ c.edges, ∀ t ∈ e.targetFile, c.hasFile t = true

theorem whole_empty : empty.Whole where
  distinct := List.nodup_nil
  known := by simp [empty]
  fact := by simp [empty]
  edge := by simp [empty]
  target := by simp [empty]

theorem knows_iff {c : Contents} {id : String} :
    c.knows id = true ↔ ∃ r ∈ c.repositories, r.id = id := by
  simp [knows]

theorem repositoryOf_id {c : Contents} {id : String} {r : Repository}
    (h : c.repositoryOf id = some r) : r.id = id := by
  simpa using List.find?_some h

theorem knows_of_repositoryOf {c : Contents} {id : String} {r : Repository}
    (h : c.repositoryOf id = some r) : c.knows id = true :=
  knows_iff.2 ⟨r, List.mem_of_find?_eq_some h, repositoryOf_id h⟩

theorem unknown_of_repositoryOf {c : Contents} {id : String} (h : c.repositoryOf id = none) :
    c.knows id = false := by
  rw [knows, List.any_eq_false]
  exact List.find?_eq_none.1 h

theorem updated_id (c : Contents) (id : String) (u : RepositoryUpdate) :
    (c.updated id u).id = id := by
  unfold updated
  cases h : c.repositoryOf id with
  | none => rfl
  | some r =>
    have := repositoryOf_id h
    exact this

theorem hasFile_iff {c : Contents} {id : Int64} :
    c.hasFile id = true ↔ ∃ f ∈ c.files, f.id = id := by
  simp [hasFile]

theorem mem_idsOf {c : Contents} {repository : String} {id : Int64} :
    id ∈ c.idsOf repository ↔ ∃ f ∈ c.files, f.repository = repository ∧ f.id = id := by
  simp [idsOf, filesOf, and_assoc]

theorem hasPath_iff {c : Contents} {f : NewFile} :
    c.hasPath f.repository f.path = true ↔ ∃ g ∈ c.files, g.key = f.key := by
  simp [hasPath, NewFile.key]

theorem admits_nil (c : Contents) : c.Admits [] := ⟨by simp, by simp, List.nodup_nil⟩

theorem admits_cons {c : Contents} {f : NewFile} {new : List NewFile} :
    c.Admits (f :: new) ↔ c.knows f.repository = true ∧ c.hasPath f.repository f.path = false ∧
      (∀ g ∈ new, g.key ≠ f.key) ∧ c.Admits new := by
  constructor
  · intro h
    have hd := List.nodup_cons.1 h.distinct
    refine ⟨h.known f (by simp), h.free f (by simp), ?_, ?_, ?_, hd.2⟩
    · intro g hg heq
      exact hd.1 (heq ▸ List.mem_map_of_mem hg)
    · exact fun g hg => h.known g (by simp [hg])
    · exact fun g hg => h.free g (by simp [hg])
  · rintro ⟨hknown, hfree, hother, h⟩
    refine ⟨List.forall_mem_cons.2 ⟨hknown, h.known⟩, List.forall_mem_cons.2 ⟨hfree, h.free⟩, ?_⟩
    refine List.nodup_cons.2 ⟨?_, h.distinct⟩
    intro hmem
    obtain ⟨g, hg, heq⟩ := List.mem_map.1 hmem
    exact hother g hg heq

/-- Behind one more file, others are admitted when they do not come to its path. -/
theorem admits_addFile {c : Contents} {f : StoredFile} {new : List NewFile} :
    (c.addFiles [f]).Admits new ↔ c.Admits new ∧ ∀ g ∈ new, g.key ≠ f.key := by
  have hpath : ∀ g : NewFile, (c.addFiles [f]).hasPath g.repository g.path = false ↔
      c.hasPath g.repository g.path = false ∧ g.key ≠ f.key := by
    intro g
    rw [← Bool.not_eq_true, ← Bool.not_eq_true, hasPath_iff, hasPath_iff, ← not_or]
    refine not_congr ?_
    simp only [addFiles, List.mem_append, List.mem_singleton, or_and_right, exists_or,
      exists_eq_left]
    rw [eq_comm (a := f.key)]
  constructor
  · intro h
    exact ⟨⟨h.known, fun g hg => ((hpath g).1 (h.free g hg)).1, h.distinct⟩,
      fun g hg => ((hpath g).1 (h.free g hg)).2⟩
  · rintro ⟨h, hother⟩
    exact ⟨h.known, fun g hg => (hpath g).2 ⟨h.free g hg, hother g hg⟩, h.distinct⟩

/-- Files are stored for known repositories. -/
theorem Admits.known_stored {c : Contents} {new : List NewFile} (h : c.Admits new)
    {stored : List StoredFile} (hstored : stored.map (·.toNewFile) = new) :
    ∀ f ∈ stored, c.knows f.repository = true :=
  fun f hf => h.known f.toNewFile (hstored ▸ List.mem_map_of_mem hf)

/-- Of files that are admitted together, the first ones are. -/
theorem Admits.front {c : Contents} {new rest : List NewFile} (h : c.Admits (new ++ rest)) :
    c.Admits new := by
  have hdistinct := h.distinct
  rw [List.map_append] at hdistinct
  exact ⟨fun f hf => h.known f (List.mem_append_left _ hf),
    fun f hf => h.free f (List.mem_append_left _ hf), (List.nodup_append.1 hdistinct).1⟩

/-- Behind the first ones, the others are. -/
theorem Admits.after {c : Contents} {new rest : List NewFile} (h : c.Admits (new ++ rest))
    {stored : List StoredFile} (hstored : stored.map (·.toNewFile) = new) :
    (c.addFiles stored).Admits rest := by
  have hdistinct := h.distinct
  rw [List.map_append] at hdistinct
  obtain ⟨-, hrest, hother⟩ := List.nodup_append.1 hdistinct
  refine ⟨fun f hf => h.known f (List.mem_append_right _ hf), fun f hf => ?_, hrest⟩
  rw [← Bool.not_eq_true, hasPath_iff]
  rintro ⟨g, hg, heq⟩
  rcases List.mem_append.1 hg with hg | hg
  · have htaken := hasPath_iff.2 ⟨g, hg, heq⟩
    rw [h.free f (List.mem_append_right _ hf)] at htaken
    cases htaken
  · have hgnew : g.toNewFile ∈ new := hstored ▸ List.mem_map_of_mem hg
    exact hother _ (List.mem_map_of_mem hgnew) _ (List.mem_map_of_mem hf) heq

/-- A known repository without files takes files of different paths. -/
theorem admits_clear {c : Contents} {repository : String} (hknown : c.knows repository = true)
    {new : List NewFile} (hnew : ∀ f ∈ new, f.repository = repository)
    (hdistinct : (new.map (·.path)).Nodup) : (c.clear repository).Admits new where
  known := by
    intro f hf
    rw [hnew f hf]
    exact hknown
  free := by
    intro f hf
    rw [← Bool.not_eq_true, hasPath_iff]
    rintro ⟨g, hg, heq⟩
    have hne := (List.mem_filter.1 hg).2
    have hsame : g.repository = f.repository := congrArg Prod.fst heq
    simp [hsame, hnew f hf] at hne
  distinct := by
    refine List.Nodup.of_map Prod.snd ?_
    rw [List.map_map]
    exact hdistinct

/-- No two files have one id. -/
def Distinct (c : Contents) : Prop := (c.files.map (·.id)).Nodup

namespace Distinct

variable {c : Contents}

/-- Files are told by their ids. -/
theorem eq_of_id (h : c.Distinct) {f g : StoredFile} (hf : f ∈ c.files) (hg : g ∈ c.files)
    (hid : f.id = g.id) : f = g :=
  List.inj_on_of_nodup_map h hf hg hid

/-- Among stored files, those of a repository are told by their ids. -/
theorem mem_idsOf_iff (h : c.Distinct) {f : StoredFile} (hf : f ∈ c.files) {repository : String} :
    f.id ∈ c.idsOf repository ↔ f.repository = repository := by
  rw [mem_idsOf]
  constructor
  · rintro ⟨g, hg, hr, hid⟩
    rw [← h.eq_of_id hg hf hid]
    exact hr
  · intro hr
    exact ⟨f, hf, hr, rfl⟩

end Distinct

/-- Edges have no target, or that of a stored file. -/
def Leads (c : Contents) : Prop := ∀ e ∈ c.edges, ∀ t ∈ e.targetFile, c.hasFile t = true

/-- Where all files belong to known repositories, an unknown one has none. -/
theorem idsOf_of_unknown {c : Contents} (h : ∀ f ∈ c.files, c.knows f.repository = true)
    {repository : String} (hn : c.knows repository = false) : c.idsOf repository = [] := by
  refine List.eq_nil_iff_forall_not_mem.2 fun id hid => ?_
  obtain ⟨f, hf, rfl, -⟩ := mem_idsOf.1 hid
  rw [h f hf] at hn
  cases hn

theorem hasFile_addFiles {c : Contents} (stored : List StoredFile) {id : Int64}
    (h : c.hasFile id = true) : (c.addFiles stored).hasFile id = true := by
  obtain ⟨f, hf, hid⟩ := hasFile_iff.1 h
  exact hasFile_iff.2 ⟨f, List.mem_append_left _ hf, hid⟩

theorem Leads.addFiles {c : Contents} (h : c.Leads) (stored : List StoredFile) :
    (c.addFiles stored).Leads :=
  fun e he t ht => hasFile_addFiles stored (h e he t ht)

theorem Leads.clear {c : Contents} (h : c.Leads) (repository : String) :
    (c.clear repository).Leads := by
  intro d hd t ht
  obtain ⟨e, he, rfl⟩ := List.mem_map.1 hd
  obtain ⟨ht, hout⟩ := Option.mem_filter_iff.1 ht
  obtain ⟨f, hf, rfl⟩ := hasFile_iff.1 (h e (List.mem_filter.1 he).1 t ht)
  refine hasFile_iff.2 ⟨f, List.mem_filter.2 ⟨hf, ?_⟩, rfl⟩
  -- a file of the repository is among those that are cleared
  rw [bne_iff_ne]
  intro hr
  simp [mem_idsOf.2 ⟨f, hf, hr, rfl⟩] at hout

namespace Whole

variable {c : Contents}

/-- The facts that hang on the files of a repository are those of the repository. -/
theorem fact_mem_idsOf (h : c.Whole) {x : StoredFact} (hx : x ∈ c.facts) {repository : String} :
    x.file ∈ c.idsOf repository ↔ x.repository = repository := by
  obtain ⟨f, hf, hid, hr⟩ := h.fact x hx
  rw [← hid, ← hr, Distinct.mem_idsOf_iff h.distinct hf]

/-- The edges from the files of a repository are those of the repository. -/
theorem edge_mem_idsOf (h : c.Whole) {e : StoredEdge} (he : e ∈ c.edges) {repository : String} :
    e.sourceFile ∈ c.idsOf repository ↔ e.repository = repository := by
  obtain ⟨f, hf, hid, hr⟩ := h.edge e he
  rw [← hid, ← hr, Distinct.mem_idsOf_iff h.distinct hf]

theorem clear_of_unknown (h : c.Whole) {repository : String} (hn : c.knows repository = false) :
    c.clear repository = c := by
  have hids := idsOf_of_unknown h.known hn
  have hother := List.filter_eq_nil_iff.1 (List.map_eq_nil_iff.1 hids)
  have hdetached : ∀ e : StoredEdge, e.detached [] = e := by
    rintro ⟨⟨repository, sourceFile, _ | t, externalTarget, kind, specifier, line⟩, id⟩ <;> rfl
  unfold clear
  rw [hids]
  congr 1
  · exact List.filter_eq_self.2 fun f hf => by simpa using hother f hf
  · simp
  · simp only [List.contains_nil, Bool.not_false, List.filter_true]
    exact (List.map_congr_left fun e _ => hdetached e).trans (List.map_id _)

theorem delete_of_unknown (h : c.Whole) {repository : String} (hn : c.knows repository = false) :
    c.delete repository = c := by
  have hkeep : c.repositories.filter (fun r => r.id != repository) = c.repositories := by
    refine List.filter_eq_self.2 fun r hr => ?_
    have := List.any_eq_false.1 hn r hr
    simpa using this
  unfold delete
  rw [h.clear_of_unknown hn, hkeep]

/-! ### Each change leaves it whole -/

theorem addFiles (h : c.Whole) {new : List StoredFile} (hnew : (new.map (·.id)).Nodup)
    (hfresh : ∀ f ∈ new, ∀ g ∈ c.files, f.id ≠ g.id)
    (hknown : ∀ f ∈ new, c.knows f.repository = true) : (c.addFiles new).Whole where
  distinct := by
    simp only [Contents.addFiles, List.map_append]
    refine List.nodup_append.2 ⟨h.distinct, hnew, ?_⟩
    intro i hi j hj hij
    obtain ⟨g, hg, rfl⟩ := List.mem_map.1 hi
    obtain ⟨f, hf, rfl⟩ := List.mem_map.1 hj
    exact hfresh f hf g hg hij.symm
  known := by
    intro f hf
    rcases List.mem_append.1 hf with hf | hf
    · exact h.known f hf
    · exact hknown f hf
  fact := by
    intro x hx
    obtain ⟨f, hf, hid⟩ := h.fact x hx
    exact ⟨f, List.mem_append_left _ hf, hid⟩
  edge := by
    intro e he
    obtain ⟨f, hf, hid⟩ := h.edge e he
    exact ⟨f, List.mem_append_left _ hf, hid⟩
  target := Leads.addFiles h.target new

theorem clear (h : c.Whole) (repository : String) : (c.clear repository).Whole where
  distinct := h.distinct.sublist (List.filter_sublist.map _)
  known := by
    intro f hf
    exact h.known f (List.mem_filter.1 hf).1
  fact := by
    intro x hx
    obtain ⟨hx, hout⟩ := List.mem_filter.1 hx
    obtain ⟨f, hf, hid, hr⟩ := h.fact x hx
    refine ⟨f, List.mem_filter.2 ⟨hf, ?_⟩, hid, hr⟩
    simpa [h.fact_mem_idsOf hx, hr] using hout
  edge := by
    intro d hd
    obtain ⟨e, he, rfl⟩ := List.mem_map.1 hd
    obtain ⟨he, hout⟩ := List.mem_filter.1 he
    obtain ⟨f, hf, hid, hr⟩ := h.edge e he
    refine ⟨f, List.mem_filter.2 ⟨hf, ?_⟩, hid, hr⟩
    simpa [h.edge_mem_idsOf he, hr] using hout
  target := Leads.clear h.target repository

theorem replace (h : c.Whole) {f : StoredFile} (hf : f ∈ c.files) {facts : List StoredFact}
    {edges : List StoredEdge} (hfacts : ∀ x ∈ facts, x.file = f.id ∧ x.repository = f.repository)
    (hedges : ∀ e ∈ edges, e.sourceFile = f.id ∧ e.repository = f.repository)
    (htargets : ∀ e ∈ edges, ∀ t ∈ e.targetFile, c.hasFile t = true) :
    (c.replace f.id facts edges).Whole where
  distinct := h.distinct
  known := h.known
  fact := by
    intro x hx
    rcases List.mem_append.1 hx with hx | hx
    · exact h.fact x (List.mem_filter.1 hx).1
    · exact ⟨f, hf, (hfacts x hx).1.symm, (hfacts x hx).2.symm⟩
  edge := by
    intro e he
    rcases List.mem_append.1 he with he | he
    · exact h.edge e (List.mem_filter.1 he).1
    · exact ⟨f, hf, (hedges e he).1.symm, (hedges e he).2.symm⟩
  target := by
    intro e he
    rcases List.mem_append.1 he with he | he
    · exact h.target e (List.mem_filter.1 he).1
    · exact htargets e he

theorem knows_putRepository (c : Contents) (r : Repository) (id : String) :
    (c.putRepository r).knows id = (c.knows id || r.id == id) := by
  rw [Bool.eq_iff_iff, Bool.or_eq_true, beq_iff_eq, knows_iff, knows_iff]
  unfold putRepository
  constructor
  · rintro ⟨o, ho, rfl⟩
    simp only at ho
    split at ho
    · obtain ⟨o', ho', heq⟩ := List.mem_map.1 ho
      split at heq
      · rw [← heq]
        exact .inr rfl
      · rw [← heq]
        exact .inl ⟨o', ho', rfl⟩
    · rcases List.mem_append.1 ho with ho | ho
      · exact .inl ⟨o, ho, rfl⟩
      · rw [List.mem_singleton.1 ho]
        exact .inr rfl
  · rintro (⟨o, ho, rfl⟩ | rfl)
    · simp only
      split
      · refine ⟨_, List.mem_map_of_mem ho, ?_⟩
        split
        · rename_i heq
          exact (beq_iff_eq.1 heq).symm
        · rfl
      · exact ⟨o, List.mem_append_left _ ho, rfl⟩
    · simp only
      split
      · rename_i hk
        obtain ⟨o, ho, hid⟩ := knows_iff.1 hk
        exact ⟨_, List.mem_map_of_mem ho, by simp [hid]⟩
      · exact ⟨r, by simp, rfl⟩

theorem putRepository (h : c.Whole) (r : Repository) : (c.putRepository r).Whole where
  distinct := h.distinct
  known := by
    intro f hf
    rw [knows_putRepository, h.known f hf, Bool.true_or]
  fact := h.fact
  edge := h.edge
  target := h.target

theorem delete (h : c.Whole) (repository : String) : (c.delete repository).Whole where
  distinct := (h.clear repository).distinct
  known := by
    intro f hf
    obtain ⟨hf, hne⟩ := List.mem_filter.1 hf
    obtain ⟨r, hr, hid⟩ := knows_iff.1 (h.known f hf)
    refine knows_iff.2 ⟨r, List.mem_filter.2 ⟨hr, ?_⟩, hid⟩
    rw [hid]
    exact hne
  fact := (h.clear repository).fact
  edge := (h.clear repository).edge
  target := (h.clear repository).target

end Whole

end Contents

end CodeSurvey
