-- Two stores can hold the same records under different ids. A renaming pairs
-- the ids, in the order of both stores; up to it their contents are alike, and
-- each change leaves them so.
import CodeSurvey.Proofs.Store.Lawful

namespace CodeSurvey

/-! ## Renamings -/

/-- Ids of one store with the ids of another one that stand for them. Both stand in order. -/
structure Renaming where
  pairs : List (Int64 × Int64)
  ordered : pairs.Pairwise (fun p q => p.1 < q.1 ∧ p.2 < q.2)

namespace Renaming

def empty : Renaming := ⟨[], .nil⟩

/-- The second id stands for the first. -/
def Sends (ρ : Renaming) (i j : Int64) : Prop := (i, j) ∈ ρ.pairs

def Below (ρ : Renaming) (hi hi' : Int64) : Prop := ∀ p ∈ ρ.pairs, p.1 ≤ hi ∧ p.2 ≤ hi'

/-- What the one renaming sends the other one sends, too. -/
def Extends (ρ' ρ : Renaming) : Prop := ∀ i j, ρ.Sends i j → ρ'.Sends i j

theorem Extends.refl (ρ : Renaming) : ρ.Extends ρ := fun _ _ h => h

theorem Extends.trans {ρ ρ' ρ'' : Renaming} (h : ρ''.Extends ρ') (h' : ρ'.Extends ρ) :
    ρ''.Extends ρ := fun i j hs => h i j (h' i j hs)

theorem toInt_lt {i j : Int64} : i < j ↔ i.toInt < j.toInt := Int64.lt_iff_toInt_lt

/-- The ids are in the same order in both stores. -/
theorem Sends.lt_iff {ρ : Renaming} {i j i' j' : Int64} (h : ρ.Sends i j) (h' : ρ.Sends i' j') :
    i < i' ↔ j < j' := by
  obtain ⟨pairs, ordered⟩ := ρ
  simp only [Sends] at h h'
  induction pairs with
  | nil => cases h
  | cons p pairs ih =>
    obtain ⟨hhead, hrest⟩ := List.pairwise_cons.1 ordered
    rcases List.mem_cons.1 h with hp | hin <;> rcases List.mem_cons.1 h' with hp' | hin'
    · rw [← hp'] at hp
      simp only [Prod.mk.injEq] at hp
      rw [hp.1, hp.2]
      simp
    · rw [← hp] at hhead
      have := hhead _ hin'
      simp [this.1, this.2]
    · rw [← hp'] at hhead
      have := hhead _ hin
      simp only [toInt_lt] at this ⊢
      omega
    · exact ih hrest hin hin'

/-- An id is sent to one id only, and from one only. -/
theorem Sends.eq_iff {ρ : Renaming} {i j i' j' : Int64} (h : ρ.Sends i j) (h' : ρ.Sends i' j') :
    i = i' ↔ j = j' := by
  have h₁ := h.lt_iff h'
  have h₂ := h'.lt_iff h
  simp only [toInt_lt] at h₁ h₂
  rw [← Int64.toInt_inj, ← Int64.toInt_inj]
  omega

theorem Sends.beq_eq {ρ : Renaming} {i j i' j' : Int64} (h : ρ.Sends i j) (h' : ρ.Sends i' j') :
    (i == i') = (j == j') := by
  rw [Bool.eq_iff_iff, beq_iff_eq, beq_iff_eq]
  exact h.eq_iff h'

/-- One id is among ids when what it is sent to is among theirs. -/
theorem Sends.contains_eq {ρ : Renaming} {i j : Int64} (h : ρ.Sends i j) {ids ids' : List Int64}
    (hids : List.Forall₂ ρ.Sends ids ids') : ids.contains i = ids'.contains j := by
  rw [List.contains_eq_any_beq, List.contains_eq_any_beq]
  exact forall₂_any hids fun _ _ hs => h.beq_eq hs

/-- Ids that two stores count up behind all others are paired in their order. -/
theorem exists_extension (ρ : Renaming) {lo lo' hi hi' : Int64} (hbelow : ρ.Below lo lo')
    {ids ids' : List Int64} (h : Numbered lo hi ids) (h' : Numbered lo' hi' ids')
    (hlen : ids.length = ids'.length) (hup : lo.toInt ≤ hi.toInt) (hup' : lo'.toInt ≤ hi'.toInt) :
    ∃ ρ' : Renaming, ρ'.Extends ρ ∧ ρ'.Below hi hi' ∧ List.Forall₂ ρ'.Sends ids ids' := by
  have hmem : ∀ p ∈ ids.zip ids', p.1 ∈ ids ∧ p.2 ∈ ids' := fun p hp => List.of_mem_zip hp
  have hzip : (ids.zip ids').Pairwise (fun p q => p.1 < q.1 ∧ p.2 < q.2) := by
    have h₁ : ((ids.zip ids').map Prod.fst).Pairwise (· < ·) := by
      rw [List.map_fst_zip (Nat.le_of_eq hlen)]
      exact h.ascending
    have h₂ : ((ids.zip ids').map Prod.snd).Pairwise (· < ·) := by
      rw [List.map_snd_zip (Nat.le_of_eq hlen.symm)]
      exact h'.ascending
    exact (List.pairwise_map.1 h₁).and (List.pairwise_map.1 h₂)
  have hordered : (ρ.pairs ++ ids.zip ids').Pairwise (fun p q => p.1 < q.1 ∧ p.2 < q.2) := by
    refine List.pairwise_append.2 ⟨ρ.ordered, hzip, fun p hp q hq => ?_⟩
    have hle := hbelow p hp
    have hgt := h.above _ (hmem q hq).1
    have hgt' := h'.above _ (hmem q hq).2
    simp only [toInt_lt, Int64.le_iff_toInt_le] at *
    omega
  refine ⟨⟨ρ.pairs ++ ids.zip ids', hordered⟩, fun i j hs => List.mem_append_left _ hs, ?_, ?_⟩
  · intro p hp
    rcases List.mem_append.1 hp with hp | hp
    · have := hbelow p hp
      simp only [Int64.le_iff_toInt_le] at this ⊢
      omega
    · exact ⟨h.upTo _ (hmem p hp).1, h'.upTo _ (hmem p hp).2⟩
  · refine List.forall₂_iff_zip.2 ⟨hlen, fun hp => ?_⟩
    exact List.mem_append_right _ hp

end Renaming

/-- A renaming for each kind of record. -/
structure Renamings where
  files : Renaming
  facts : Renaming
  edges : Renaming

namespace Renamings

def empty : Renamings := ⟨.empty, .empty, .empty⟩

/-- Each renaming extends the other one of its kind. -/
structure Extends (ρ' ρ : Renamings) : Prop where
  files : ρ'.files.Extends ρ.files
  facts : ρ'.facts.Extends ρ.facts
  edges : ρ'.edges.Extends ρ.edges

theorem Extends.refl (ρ : Renamings) : ρ.Extends ρ := ⟨.refl _, .refl _, .refl _⟩

theorem Extends.trans {ρ ρ' ρ'' : Renamings} (h : ρ''.Extends ρ') (h' : ρ'.Extends ρ) :
    ρ''.Extends ρ :=
  ⟨h.files.trans h'.files, h.facts.trans h'.facts, h.edges.trans h'.edges⟩

structure Below (ρ : Renamings) (l l' : LastIds) : Prop where
  files : ρ.files.Below (l .file) (l' .file)
  facts : ρ.facts.Below (l .fact) (l' .fact)
  edges : ρ.edges.Below (l .edge) (l' .edge)

theorem below_empty (l l' : LastIds) : empty.Below l l' where
  files := by simp [empty, Renaming.empty, Renaming.Below]
  facts := by simp [empty, Renaming.empty, Renaming.Below]
  edges := by simp [empty, Renaming.empty, Renaming.Below]

theorem Below.counts {ρ : Renamings} {l l' m m' : LastIds} (h : ρ.Below l l') {n n' : Nat}
    (hl : l.Counts n m) (hl' : l'.Counts n' m') : ρ.Below m m' := by
  have hmono : ∀ (k : RecordKind) (r : Renaming), r.Below (l k) (l' k) → r.Below (m k) (m' k) := by
    intro k r hr p hp
    have := hr p hp
    have := hl k
    have := hl' k
    simp only [Int64.le_iff_toInt_le] at *
    omega
  exact ⟨hmono _ _ h.files, hmono _ _ h.facts, hmono _ _ h.edges⟩

end Renamings

/-! ## Records -/

/-- The files are the same but for their ids. -/
structure SameFile (ρ : Renamings) (f g : StoredFile) : Prop where
  id : ρ.files.Sends f.id g.id
  file : f.toNewFile = g.toNewFile

/-- The facts are the same but for the ids of them and of their files. -/
structure SameFact (ρ : Renamings) (x y : StoredFact) : Prop where
  id : ρ.facts.Sends x.id y.id
  file : ρ.files.Sends x.file y.file
  repository : x.repository = y.repository
  fact : x.fact = y.fact

/-- The edges are the same but for the ids of their files. -/
structure SameEnds (ρ : Renamings) (e g : Edge) : Prop where
  repository : e.repository = g.repository
  source : ρ.files.Sends e.sourceFile g.sourceFile
  target : Option.Rel ρ.files.Sends e.targetFile g.targetFile
  externalTarget : e.externalTarget = g.externalTarget
  kind : e.kind = g.kind
  specifier : e.specifier = g.specifier
  line : e.line = g.line

/-- The stored edges are the same but for the ids of them and of their files. -/
structure SameEdge (ρ : Renamings) (e g : StoredEdge) : Prop where
  id : ρ.edges.Sends e.id g.id
  edge : SameEnds ρ e.toEdge g.toEdge

section Extended

variable {ρ ρ' : Renamings}

theorem SameFile.extend (h : ρ'.Extends ρ) {f g : StoredFile} (hs : SameFile ρ f g) :
    SameFile ρ' f g := ⟨h.files _ _ hs.id, hs.file⟩

theorem SameFact.extend (h : ρ'.Extends ρ) {x y : StoredFact} (hs : SameFact ρ x y) :
    SameFact ρ' x y := ⟨h.facts _ _ hs.id, h.files _ _ hs.file, hs.repository, hs.fact⟩

theorem SameEnds.extend (h : ρ'.Extends ρ) {e g : Edge} (hs : SameEnds ρ e g) :
    SameEnds ρ' e g where
  repository := hs.repository
  source := h.files _ _ hs.source
  target := optionRel_imp hs.target h.files
  externalTarget := hs.externalTarget
  kind := hs.kind
  specifier := hs.specifier
  line := hs.line

theorem SameEdge.extend (h : ρ'.Extends ρ) {e g : StoredEdge} (hs : SameEdge ρ e g) :
    SameEdge ρ' e g := ⟨h.edges _ _ hs.id, hs.edge.extend h⟩

end Extended

/-- Facts of one file are the same where their ids and the file's pair up. -/
theorem sameFacts_of_ids {ρ : Renamings} {i j : Int64} (hfile : ρ.files.Sends i j)
    {repository : String} {facts : List Fact} {xs ys : List StoredFact}
    (hxs : xs.map (fun x => (x.file, x.repository, x.fact)) =
      facts.map (fun a => (i, repository, a)))
    (hys : ys.map (fun y => (y.file, y.repository, y.fact)) =
      facts.map (fun a => (j, repository, a)))
    (hids : List.Forall₂ ρ.facts.Sends (xs.map (·.id)) (ys.map (·.id))) :
    List.Forall₂ (SameFact ρ) xs ys := by
  obtain ⟨hxFacts, hx⟩ := hang_of_map_eq hxs
  obtain ⟨hyFacts, hy⟩ := hang_of_map_eq hys
  have hsame := forall₂_of_map_eq (hxFacts.trans hyFacts.symm)
  rw [List.forall₂_map_left_iff, List.forall₂_map_right_iff] at hids
  have hpaired := hids.mp (fun _ _ hid hfact => And.intro hid hfact) hsame
  refine List.forall₂_iff_zip.2 ⟨hsame.length_eq, fun {x y} hxy => ?_⟩
  obtain ⟨hid, hfact⟩ := List.forall₂_zip hpaired hxy
  obtain ⟨hxmem, hymem⟩ := List.of_mem_zip hxy
  refine ⟨hid, ?_, (hx x hxmem).2.trans (hy y hymem).2.symm, hfact⟩
  rw [(hx x hxmem).1, (hy y hymem).1]
  exact hfile

/-- Edges are the same where their ids pair up, too. -/
theorem sameEdges_of_ids {ρ : Renamings} {es gs : List StoredEdge}
    (hends : List.Forall₂ (fun e g => SameEnds ρ e.toEdge g.toEdge) es gs)
    (hids : List.Forall₂ ρ.edges.Sends (es.map (·.id)) (gs.map (·.id))) :
    List.Forall₂ (SameEdge ρ) es gs := by
  rw [List.forall₂_map_left_iff, List.forall₂_map_right_iff] at hids
  exact hids.mp (fun _ _ hid he => ⟨hid, he⟩) hends

/-- Facts of one file and edges that are the same pair up once the renaming is extended by their
ids. -/
theorem exists_paired_records {ρ : Renamings} {l l' m m' : LastIds} (hbelow : ρ.Below l l')
    {n n' : Nat} (hcounts : l.Counts n m) (hcounts' : l'.Counts n' m') {i j : Int64}
    (hfile : ρ.files.Sends i j) {repository : String} {facts : List Fact}
    {xs ys : List StoredFact}
    (hxs : xs.map (fun x => (x.file, x.repository, x.fact)) =
      facts.map (fun a => (i, repository, a)))
    (hys : ys.map (fun y => (y.file, y.repository, y.fact)) =
      facts.map (fun a => (j, repository, a)))
    (hxIds : Numbered (l .fact) (m .fact) (xs.map (·.id)))
    (hyIds : Numbered (l' .fact) (m' .fact) (ys.map (·.id)))
    {es gs : List StoredEdge} (hends : List.Forall₂ (fun e g => SameEnds ρ e.toEdge g.toEdge) es gs)
    (heIds : Numbered (l .edge) (m .edge) (es.map (·.id)))
    (hgIds : Numbered (l' .edge) (m' .edge) (gs.map (·.id))) :
    ∃ ρ' : Renamings, ρ'.Extends ρ ∧ ρ'.Below m m' ∧ List.Forall₂ (SameFact ρ') xs ys ∧
      List.Forall₂ (SameEdge ρ') es gs := by
  have hsame := forall₂_of_map_eq ((hang_of_map_eq hxs).1.trans (hang_of_map_eq hys).1.symm)
  obtain ⟨factIds, hfacts, hfactsBelow, hfactsSend⟩ := ρ.facts.exists_extension hbelow.facts hxIds
    hyIds (by simpa using hsame.length_eq) (hcounts .fact).1 (hcounts' .fact).1
  obtain ⟨edgeIds, hedges, hedgesBelow, hedgesSend⟩ := ρ.edges.exists_extension hbelow.edges heIds
    hgIds (by simpa using hends.length_eq) (hcounts .edge).1 (hcounts' .edge).1
  have hextends : Renamings.Extends ⟨ρ.files, factIds, edgeIds⟩ ρ := ⟨.refl _, hfacts, hedges⟩
  refine ⟨⟨ρ.files, factIds, edgeIds⟩, hextends,
    ⟨(hbelow.counts hcounts hcounts').files, hfactsBelow, hedgesBelow⟩,
    sameFacts_of_ids (hextends.files _ _ hfile) hxs hys hfactsSend,
    sameEdges_of_ids (hends.imp fun _ _ he => he.extend hextends) hedgesSend⟩

/-! ## Contents -/

/-- The contents are the same but for the ids. -/
structure Alike (ρ : Renamings) (c c' : Contents) : Prop where
  repositories : c.repositories = c'.repositories
  files : List.Forall₂ (SameFile ρ) c.files c'.files
  facts : List.Forall₂ (SameFact ρ) c.facts c'.facts
  edges : List.Forall₂ (SameEdge ρ) c.edges c'.edges

namespace Alike

variable {ρ : Renamings} {c c' : Contents}

theorem empty (ρ : Renamings) : Alike ρ .empty .empty := ⟨rfl, .nil, .nil, .nil⟩

theorem extend {ρ' : Renamings} (h : Alike ρ c c') (he : ρ'.Extends ρ) : Alike ρ' c c' :=
  ⟨h.repositories, h.files.imp fun _ _ => SameFile.extend he,
    h.facts.imp fun _ _ => SameFact.extend he, h.edges.imp fun _ _ => SameEdge.extend he⟩

/-! ### Questions -/

theorem knows (h : Alike ρ c c') (id : String) : c.knows id = c'.knows id := by
  rw [Contents.knows, Contents.knows, h.repositories]

theorem repositoryOf (h : Alike ρ c c') (id : String) : c.repositoryOf id = c'.repositoryOf id := by
  rw [Contents.repositoryOf, Contents.repositoryOf, h.repositories]

theorem updated (h : Alike ρ c c') (id : String) (u : RepositoryUpdate) :
    c.updated id u = c'.updated id u := by
  rw [Contents.updated, Contents.updated, h.repositoryOf]

theorem hasFile (h : Alike ρ c c') {i j : Int64} (hs : ρ.files.Sends i j) :
    c.hasFile i = c'.hasFile j :=
  forall₂_any h.files fun _ _ hf => hf.id.beq_eq hs

theorem hasPath (h : Alike ρ c c') (repository path : String) :
    c.hasPath repository path = c'.hasPath repository path :=
  forall₂_any h.files fun _ _ hf => by rw [hf.file]

theorem admits (h : Alike ρ c c') (new : List NewFile) : c.Admits new ↔ c'.Admits new := by
  constructor
  · intro ha
    exact ⟨fun f hf => by rw [← h.knows]; exact ha.known f hf,
      fun f hf => by rw [← h.hasPath]; exact ha.free f hf, ha.distinct⟩
  · intro ha
    exact ⟨fun f hf => by rw [h.knows]; exact ha.known f hf,
      fun f hf => by rw [h.hasPath]; exact ha.free f hf, ha.distinct⟩

theorem filesOf (h : Alike ρ c c') (repository : String) :
    List.Forall₂ (SameFile ρ) (c.filesOf repository) (c'.filesOf repository) :=
  forall₂_filter h.files fun _ _ hf => by rw [hf.file]

theorem idsOf (h : Alike ρ c c') (repository : String) :
    List.Forall₂ ρ.files.Sends (c.idsOf repository) (c'.idsOf repository) :=
  forall₂_map (h.filesOf repository) fun _ _ hf => hf.id

theorem factsOfFile (h : Alike ρ c c') {i j : Int64} (hs : ρ.files.Sends i j) :
    List.Forall₂ (SameFact ρ) (c.factsOfFile i) (c'.factsOfFile j) :=
  forall₂_filter h.facts fun _ _ hx => hx.file.beq_eq hs

theorem factsOf (h : Alike ρ c c') (repository : String) :
    List.Forall₂ (SameFact ρ) (c.factsOf repository) (c'.factsOf repository) :=
  forall₂_filter h.facts fun _ _ hx => by rw [hx.repository]

theorem edgesOf (h : Alike ρ c c') (repository : String) :
    List.Forall₂ (SameEdge ρ) (c.edgesOf repository) (c'.edgesOf repository) :=
  forall₂_filter h.edges fun _ _ he => by rw [he.edge.repository]

/-! ### Each change leaves them alike -/

theorem addFiles (h : Alike ρ c c') {new new' : List StoredFile}
    (hnew : List.Forall₂ (SameFile ρ) new new') : Alike ρ (c.addFiles new) (c'.addFiles new') :=
  ⟨h.repositories, List.rel_append h.files hnew, h.facts, h.edges⟩

theorem detached {e g : StoredEdge} (he : SameEdge ρ e g) {ids ids' : List Int64}
    (hids : List.Forall₂ ρ.files.Sends ids ids') :
    SameEdge ρ (e.detached ids) (g.detached ids') := by
  refine ⟨he.id, ⟨he.edge.repository, he.edge.source, ?_, he.edge.externalTarget, he.edge.kind,
    he.edge.specifier, he.edge.line⟩⟩
  exact optionRel_filter he.edge.target fun _ _ ht => by rw [ht.contains_eq hids]

theorem clear (h : Alike ρ c c') (repository : String) :
    Alike ρ (c.clear repository) (c'.clear repository) := by
  have hids := h.idsOf repository
  refine ⟨h.repositories, ?_, ?_, ?_⟩
  · exact forall₂_filter h.files fun _ _ hf => by rw [hf.file]
  · exact forall₂_filter h.facts fun _ _ hx => by rw [hx.file.contains_eq hids]
  · have hkept : List.Forall₂ (SameEdge ρ)
        (c.edges.filter (fun e => !(c.idsOf repository).contains e.sourceFile))
        (c'.edges.filter (fun e => !(c'.idsOf repository).contains e.sourceFile)) :=
      forall₂_filter h.edges fun _ _ he => by rw [he.edge.source.contains_eq hids]
    exact forall₂_map hkept fun _ _ he => detached he hids

theorem replace (h : Alike ρ c c') {i j : Int64} (hs : ρ.files.Sends i j)
    {facts facts' : List StoredFact} {edges edges' : List StoredEdge}
    (hfacts : List.Forall₂ (SameFact ρ) facts facts')
    (hedges : List.Forall₂ (SameEdge ρ) edges edges') :
    Alike ρ (c.replace i facts edges) (c'.replace j facts' edges') := by
  refine ⟨h.repositories, h.files, List.rel_append ?_ hfacts, List.rel_append ?_ hedges⟩
  · exact forall₂_filter h.facts fun _ _ hx => by rw [bne, bne, hx.file.beq_eq hs]
  · exact forall₂_filter h.edges fun _ _ he => by rw [bne, bne, he.edge.source.beq_eq hs]

theorem putRepository (h : Alike ρ c c') (r : Repository) :
    Alike ρ (c.putRepository r) (c'.putRepository r) :=
  ⟨by simp only [Contents.putRepository, h.repositories, h.knows], h.files, h.facts, h.edges⟩

theorem delete (h : Alike ρ c c') (repository : String) :
    Alike ρ (c.delete repository) (c'.delete repository) := by
  have hcleared := h.clear repository
  exact ⟨by simp only [Contents.delete, h.repositories], hcleared.files, hcleared.facts,
    hcleared.edges⟩

end Alike

end CodeSurvey
