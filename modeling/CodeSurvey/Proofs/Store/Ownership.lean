-- Whose the facts and edges are. They are found under the repository of the file that they
-- hang on as long as files are named by their own repositories when their facts are
-- replaced. A store only looks whether a file has the id: where another repository is
-- named, facts and edges come to that one.
import CodeSurvey.Proofs.Store.Change

namespace CodeSurvey

/-! ## What is owned -/

section Questions

variable {σ : Type} [Storage σ]

/-- A file with the id is stored for the repository. -/
def StoredFor (s : σ) (repository : String) (id : Int64) : Prop :=
  ∃ fs, (Storage.files repository s).1 = .ok fs ∧ ∃ f ∈ fs, f.id = id

/-- The file with the id is stored for the repository, and for no other one. -/
def BelongsTo (s : σ) (id : Int64) (repository : String) : Prop :=
  ∀ q, StoredFor s q id ↔ q = repository

/-- Edges have no target, or that of a stored file. -/
def LeadsToStored (s : σ) : Prop :=
  ∀ q es, (Storage.edges q s).1 = .ok es → ∀ e ∈ es, ∀ t ∈ e.targetFile, ∃ p, StoredFor s p t

/-- Facts and edges name the repositories of the files that they hang on, and edges lead to stored
files. -/
structure Owned (s : σ) : Prop where
  fact (q : String) (xs : List StoredFact) : (Storage.facts q s).1 = .ok xs →
    ∀ x ∈ xs, BelongsTo s x.file x.repository
  edge (q : String) (es : List StoredEdge) : (Storage.edges q s).1 = .ok es →
    ∀ e ∈ es, BelongsTo s e.sourceFile e.repository
  target : LeadsToStored s

/-- Where something is stored for a file, the file is named by its own repository, and edges lead to
stored files. -/
def NamesOwner (s : σ) : StoreRequest → Prop
  | .replaceFacts file repository facts edges =>
    facts = [] ∧ edges = [] ∨ StoredFor s repository file ∧
      ∀ e ∈ edges, ∀ t ∈ e.targetFile, ∃ q, StoredFor s q t
  | _ => True

end Questions

/-! ## Contents -/

namespace Contents

/-- A stored file of the repository has the id. -/
def HasFileOf (c : Contents) (repository : String) (id : Int64) : Prop :=
  ∃ f ∈ c.files, f.id = id ∧ f.repository = repository

/-- Facts and edges hang on files of their own repositories. -/
structure Owned (c : Contents) : Prop where
  fact : ∀ x ∈ c.facts, c.HasFileOf x.repository x.file
  edge : ∀ e ∈ c.edges, c.HasFileOf e.repository e.sourceFile
  target : c.Leads

/-- What is asked for names files by their own repositories. -/
def Owns (c : Contents) : StoreRequest → Prop
  | .replaceFacts file repository facts edges => facts = [] ∧ edges = [] ∨
    c.HasFileOf repository file ∧ ∀ e ∈ edges, ∀ t ∈ e.targetFile, c.hasFile t = true
  | _ => True

theorem Whole.owned {c : Contents} (h : c.Whole) : c.Owned := ⟨h.fact, h.edge, h.target⟩

end Contents

section Reading

variable {σ : Type} [Storage σ] {s : σ} {c : Contents}

theorem AnswersFrom.storedFor_iff (h : AnswersFrom s c) {repository : String} {id : Int64} :
    StoredFor s repository id ↔ c.HasFileOf repository id := by
  unfold StoredFor Contents.HasFileOf
  rw [h.files]
  constructor
  · rintro ⟨fs, hfs, f, hf, hid⟩
    obtain rfl := Except.ok.inj hfs
    obtain ⟨hf, hr⟩ := List.mem_filter.1 hf
    exact ⟨f, hf, hid, beq_iff_eq.1 hr⟩
  · rintro ⟨f, hf, hid, hr⟩
    exact ⟨_, rfl, f, List.mem_filter.2 ⟨hf, beq_iff_eq.2 hr⟩, hid⟩

theorem AnswersFrom.stored_iff (h : AnswersFrom s c) {id : Int64} :
    (∃ q, StoredFor s q id) ↔ c.hasFile id = true := by
  rw [Contents.hasFile_iff]
  constructor
  · rintro ⟨q, hq⟩
    obtain ⟨f, hf, hid, -⟩ := h.storedFor_iff.1 hq
    exact ⟨f, hf, hid⟩
  · rintro ⟨f, hf, hid⟩
    exact ⟨f.repository, h.storedFor_iff.2 ⟨f, hf, hid, rfl⟩⟩

theorem AnswersFrom.belongsTo_iff (h : AnswersFrom s c) (hd : c.Distinct) {id : Int64}
    {repository : String} : BelongsTo s id repository ↔ c.HasFileOf repository id := by
  constructor
  · exact fun hb => h.storedFor_iff.1 ((hb repository).2 rfl)
  · rintro ⟨f, hf, rfl, rfl⟩ q
    rw [h.storedFor_iff]
    constructor
    · rintro ⟨g, hg, hid, rfl⟩
      rw [hd.eq_of_id hg hf hid]
    · rintro rfl
      exact ⟨f, hf, rfl, rfl⟩

theorem AnswersFrom.leadsToStored_iff (h : AnswersFrom s c) : LeadsToStored s ↔ c.Leads := by
  constructor
  · intro hs e he t ht
    have hmem : e ∈ c.edgesOf e.repository := List.mem_filter.2 ⟨he, beq_self_eq_true _⟩
    exact h.stored_iff.1 (hs _ _ (h.edges e.repository) e hmem t ht)
  · intro hc q es hes e he t ht
    rw [h.edges, Except.ok.injEq] at hes
    subst hes
    exact h.stored_iff.2 (hc e (List.mem_filter.1 he).1 t ht)

/-- What the answers tell is what the contents are like. -/
theorem AnswersFrom.owned_iff (h : AnswersFrom s c) (hd : c.Distinct) : Owned s ↔ c.Owned := by
  constructor
  · intro hs
    refine ⟨fun x hx => ?_, fun e he => ?_, h.leadsToStored_iff.1 hs.target⟩
    · have hmem : x ∈ c.factsOf x.repository := List.mem_filter.2 ⟨hx, beq_self_eq_true _⟩
      exact (h.belongsTo_iff hd).1 (hs.fact _ _ (h.facts x.repository) x hmem)
    · have hmem : e ∈ c.edgesOf e.repository := List.mem_filter.2 ⟨he, beq_self_eq_true _⟩
      exact (h.belongsTo_iff hd).1 (hs.edge _ _ (h.edges e.repository) e hmem)
  · intro hc
    refine ⟨fun q xs hxs x hx => ?_, fun q es hes e he => ?_, h.leadsToStored_iff.2 hc.target⟩
    · rw [h.facts, Except.ok.injEq] at hxs
      subst hxs
      exact (h.belongsTo_iff hd).2 (hc.fact x (List.mem_filter.1 hx).1)
    · rw [h.edges, Except.ok.injEq] at hes
      subst hes
      exact (h.belongsTo_iff hd).2 (hc.edge e (List.mem_filter.1 he).1)

theorem AnswersFrom.namesOwner_iff (h : AnswersFrom s c) {r : StoreRequest} :
    NamesOwner s r ↔ c.Owns r := by
  cases r with
  | replaceFacts file repository facts edges =>
    simp only [NamesOwner, Contents.Owns, h.stored_iff]
    rw [h.storedFor_iff]
  | _ => exact Iff.rfl

end Reading

namespace Contents

variable {c c' : Contents} {r : StoreRequest}

/-! ## One request -/

/-- Records hang together as before, and on their own, when files are named by their
repositories. -/
theorem Whole.becomes (h : c.Whole) (hbec : c.Becomes r c') (howns : c.Owns r) : c'.Whole := by
  cases hbec with
  | same _ => exact h
  | @insertFiles new kept hadmits hkeys hdistinct =>
    have hids := hdistinct
    unfold Distinct Contents.addFiles at hids
    rw [List.map_append] at hids
    obtain ⟨-, hnew, hother⟩ := List.nodup_append.1 hids
    refine h.addFiles hnew (fun f hf g hg => ?_) fun f hf => ?_
    · exact (hother _ (List.mem_map_of_mem hg) _ (List.mem_map_of_mem hf)).symm
    · have hkey : f.key ∈ new.map (·.key) := hkeys ▸ List.mem_map_of_mem hf
      obtain ⟨g, hg, heq⟩ := List.mem_map.1 hkey
      have hrepository : g.repository = f.repository := congrArg Prod.fst heq
      rw [← hrepository]
      exact hadmits.known g hg
  | clearFiles repository => exact h.clear repository
  | @replaceFacts file repository facts edges newFacts newEdges hfile hcheck hfacts hedges =>
    rcases howns with ⟨rfl, rfl⟩ | ⟨⟨f, hf, rfl, rfl⟩, htargets⟩
    · -- with nothing to store, it does not matter which repository is named
      obtain ⟨f, hf, rfl⟩ := hasFile_iff.1 hfile
      obtain rfl := List.map_eq_nil_iff.1 hfacts
      obtain rfl := List.map_eq_nil_iff.1 hedges
      exact h.replace hf (by simp) (by simp) (by simp)
    · subst hedges
      refine h.replace hf (hang_of_map_eq hfacts).2 (fun e he => ?_) fun e he => ?_
      · exact checkEdges_iff.1 hcheck e.toEdge (List.mem_map_of_mem he)
      · exact htargets e.toEdge (List.mem_map_of_mem he)
  | updateRepository _ r => exact h.putRepository r
  | unknownRepository _ => exact h
  | @deleteRepository id facts edges hfacts hedges =>
    have hdeleted := h.delete id
    exact ⟨hdeleted.distinct, hdeleted.known, fun x hx => hdeleted.fact x (hfacts.subset hx),
      fun e he => hdeleted.edge e (hedges.subset he),
      fun e he => hdeleted.target e (hedges.subset he)⟩

/-- Where facts and edges are on their own files afterwards, their files were named by their
repositories. -/
theorem Owned.owns (h : c'.Owned) (hbec : c.Becomes r c') : c.Owns r := by
  cases hbec with
  | @replaceFacts file repository facts edges newFacts newEdges hfile hcheck hfacts hedges =>
    subst hedges
    have hnewEdge : ∀ e ∈ newEdges, e ∈ (c.replace file newFacts newEdges).edges := fun e he =>
      List.mem_append_right _ he
    have htargets : ∀ e ∈ newEdges.map (·.toEdge), ∀ t ∈ e.targetFile, c.hasFile t = true := by
      intro e' he' t ht
      obtain ⟨e, he, rfl⟩ := List.mem_map.1 he'
      exact h.target e (hnewEdge e he) t ht
    -- one stored fact or edge is enough to tell whose the file is
    cases newFacts with
    | cons x newFacts =>
      obtain ⟨hfile, hrepository⟩ := (hang_of_map_eq hfacts).2 x (by simp)
      obtain ⟨f, hf, hid, hr⟩ := h.fact x (List.mem_append_right _ (by simp))
      exact .inr ⟨⟨f, hf, hid.trans hfile, hr.trans hrepository⟩, htargets⟩
    | nil =>
      obtain rfl := List.map_eq_nil_iff.1 hfacts.symm
      cases newEdges with
      | nil => exact .inl ⟨rfl, rfl⟩
      | cons e newEdges =>
        obtain ⟨hfile, hrepository⟩ := checkEdges_iff.1 hcheck e.toEdge (by simp)
        obtain ⟨f, hf, hid, hr⟩ := h.edge e (hnewEdge e (by simp))
        exact .inr ⟨⟨f, hf, hid.trans hfile, hr.trans hrepository⟩, htargets⟩
  | same hasks =>
    cases r with
    | replaceFacts _ _ _ _ => exact hasks.elim
    | _ => trivial
  | _ => trivial

/-- Where new edges lead to stored files, all do. -/
theorem Leads.becomes (h : c.Leads) (hbec : c.Becomes r c') (htargets : c.HasTargets r) :
    c'.Leads := by
  cases hbec with
  | same _ => exact h
  | insertFiles _ _ _ => exact h.addFiles _
  | clearFiles repository => exact h.clear repository
  | @replaceFacts file repository facts edges newFacts newEdges hfile hcheck hfacts hedges =>
    subst hedges
    intro e he
    rcases List.mem_append.1 he with he | he
    · exact h e (List.mem_filter.1 he).1
    · exact htargets e.toEdge (List.mem_map_of_mem he)
  | updateRepository _ _ => exact h
  | unknownRepository _ => exact h
  | @deleteRepository id facts edges hfacts hedges =>
    exact fun e he => h.clear id e (hedges.subset he)

end Contents

/-! ## Runs -/

section Runs

variable {σ : Type} [Storage σ] [LawfulStorage σ] [OpenStorage σ]

/-- Facts and edges are on files of their repositories throughout a run exactly when each request of
it that is answered names files by their repositories. -/
theorem owned_throughout_iff {s : σ} {c : Contents} (h : LawfulStorage.Keeps s c) (hw : c.Whole)
    {run : List StoreRequest} (hsound : Storage.Throughout OpenStorage.Sound s run) :
    Storage.Throughout Owned s run ↔
      Storage.Heeded (fun s r => r.AnsweredBy s → NamesOwner s r) s run := by
  have howned : ∀ {s : σ} {c : Contents}, LawfulStorage.Keeps s c → c.Whole → Owned s :=
    fun h hw => ((LawfulStorage.answersFrom h).owned_iff hw.distinct).2 hw.owned
  -- as long as all names were right, what is stored is whole, and so the next step can be judged
  induction run generalizing s c with
  | nil => exact ⟨fun _ => Storage.heeded_nil, fun _ => Storage.throughout_nil.2 (howned h hw)⟩
  | cons r rest ih =>
    obtain ⟨-, hsoundRest⟩ := Storage.throughout_cons.1 hsound
    rw [Storage.throughout_cons, Storage.heeded_cons]
    cases hr : (r.perform s).1 with
    | error e =>
      have hunanswered : ¬ r.AnsweredBy s := by
        rintro ⟨a, ha⟩
        rw [hr] at ha
        cases ha
      rw [OpenStorage.refused hr] at hsoundRest ⊢
      have hrest := ih h hw hsoundRest
      exact ⟨fun hboth => ⟨fun ha => absurd ha hunanswered, hrest.1 hboth.2⟩,
        fun hboth => ⟨howned h hw, hrest.2 hboth.2⟩⟩
    | ok a =>
      obtain ⟨c', hkept, hbec⟩ := OpenStorage.answered h hw.distinct hr hsoundRest.here
      have hreads := LawfulStorage.answersFrom h
      have hreads' := LawfulStorage.answersFrom hkept
      constructor
      · rintro ⟨-, hrest⟩
        have howns := ((hreads'.owned_iff (hbec.distinct hw.distinct)).1 hrest.here).owns hbec
        exact ⟨fun _ => hreads.namesOwner_iff.2 howns,
          (ih hkept (hw.becomes hbec howns) hsoundRest).1 hrest⟩
      · rintro ⟨hnames, hrest⟩
        have howns := hreads.namesOwner_iff.1 (hnames ⟨a, hr⟩)
        exact ⟨howned h hw, (ih hkept (hw.becomes hbec howns) hsoundRest).2 hrest⟩

end Runs

namespace Relational.Database

/-- What is kept by all that becomes of contents holds of the rows after any run. -/
theorem contents_after {P : Contents → Prop} (hempty : P .empty)
    (hbecomes : ∀ {c c' r}, P c → c.Becomes r c' → c.HasTargets r → P c')
    (run : List StoreRequest) : ∃ c, (Storage.after fresh run).Keeps c ∧ c.Distinct ∧ P c := by
  have hstep : ∀ (d : Database) (r : StoreRequest), (∃ c, d.Keeps c ∧ c.Distinct ∧ P c) →
      ∃ c, (r.perform d).2.Keeps c ∧ c.Distinct ∧ P c := by
    rintro d r ⟨c, hkeeps, hdistinct, hc⟩
    cases hr : (r.perform d).1 with
    | error e =>
      rw [refused hr]
      exact ⟨c, hkeeps, hdistinct, hc⟩
    | ok a =>
      obtain ⟨c', hkept, hbec, htargets⟩ := answered hkeeps hdistinct hr
      exact ⟨c', hkept, hbec.distinct hdistinct, hbecomes hc hbec htargets⟩
  exact Storage.after_keeps hstep ⟨.empty, keeps_fresh, List.nodup_nil, hempty⟩ run

/-- Whatever was asked of the database, its rows can be read, and edges lead to stored files. -/
theorem keeps_after (run : List StoreRequest) :
    ∃ c, (Storage.after fresh run).Keeps c ∧ c.Distinct ∧ c.Leads := by
  have hempty : Contents.empty.Leads := by simp [Contents.Leads, Contents.empty]
  exact contents_after hempty (fun h hbec htargets => h.becomes hbec htargets) run

end Relational.Database

/-- The store in memory needs ids that do not run over. -/
theorem MemoryStore.owned_throughout_iff {run : List StoreRequest}
    (hroom : (empty.idsGiven run).length < Text.wordSize 63) :
    Storage.Throughout Owned empty run ↔
      Storage.Heeded (fun s r => r.AnsweredBy s → NamesOwner s r) empty run := by
  refine CodeSurvey.owned_throughout_iff keeps_empty Contents.whole_empty ?_
  rintro before later rfl
  exact sound_after hroom

/-- In a run of either store, facts and edges are always on files of their own repositories, and
edges lead to stored files, exactly when each request that is answered names files by their
repositories. In the database, edges lead to stored files in any case. -/
theorem owned_iff_named (run : List StoreRequest) :
    ((MemoryStore.empty.idsGiven run).length < Text.wordSize 63 →
      (Storage.Throughout Owned MemoryStore.empty run ↔
        Storage.Heeded (fun s r => r.AnsweredBy s → NamesOwner s r) MemoryStore.empty run)) ∧
    (Storage.Throughout Owned Relational.Database.fresh run ↔
      Storage.Heeded (fun d r => r.AnsweredBy d → NamesOwner d r) Relational.Database.fresh run) ∧
    Storage.Throughout LeadsToStored Relational.Database.fresh run := by
  refine ⟨MemoryStore.owned_throughout_iff, ?_, fun before later _ => ?_⟩
  · exact owned_throughout_iff Relational.Database.keeps_fresh Contents.whole_empty
      fun _ _ _ => trivial
  · obtain ⟨c, hkeeps, -, hleads⟩ := Relational.Database.keeps_after before
    exact (LawfulStorage.answersFrom hkeeps).leadsToStored_iff.2 hleads

/-- The file of `describedRun` is named by its repository. -/
theorem owned_iff_named_of_described :
    (MemoryStore.empty.idsGiven describedRun).length < Text.wordSize 63 ∧
      Storage.Throughout Owned MemoryStore.empty describedRun ∧
      Storage.Throughout Owned Relational.Database.fresh describedRun := by
  have hroom : (MemoryStore.empty.idsGiven describedRun).length < Text.wordSize 63 := by
    decide
  obtain ⟨hmemory, hdatabase, -⟩ := owned_iff_named describedRun
  have hfile : ∃ f ∈ [(⟨sampleFile "a.py", 1⟩ : StoredFile)], f.id = 1 := by simp
  refine ⟨hroom, (hmemory hroom).2 ?_, hdatabase.2 ?_⟩
  · refine Storage.heeded_cons.2 ⟨fun _ => trivial, Storage.heeded_cons.2 ⟨fun _ => trivial,
      Storage.heeded_cons.2 ⟨fun _ => .inr ⟨⟨_, rfl, hfile⟩, by simp⟩, Storage.heeded_nil⟩⟩⟩
  · refine Storage.heeded_cons.2 ⟨fun _ => trivial, Storage.heeded_cons.2 ⟨fun _ => trivial,
      Storage.heeded_cons.2 ⟨fun _ => .inr ⟨⟨_, rfl, hfile⟩, by simp⟩, Storage.heeded_nil⟩⟩⟩

/-- The file of one repository is named by another one. -/
def foreignRun : List StoreRequest :=
  oneFileRun ++ [.updateRepository "s" .empty, .replaceFacts 1 "s" [.bare "f" .function 1 1]
    [⟨"s", 1, none, some "os", "import", "os", 1⟩]]

/-- An edge leads to a file that was never stored. -/
def danglingRun : List StoreRequest :=
  oneFileRun ++ [.replaceFacts 1 "r" [] [⟨"r", 1, some 9, none, "import", ".b", 1⟩]]

/-- The fact is found under the other repository, though its file is stored for the first one. In
memory, the edge to nowhere is stored, too. -/
theorem not_owned_of_foreign_name :
    ¬ Owned (Storage.after MemoryStore.empty foreignRun) ∧
      ¬ Owned (Storage.after Relational.Database.fresh foreignRun) ∧
      ¬ LeadsToStored (Storage.after MemoryStore.empty danglingRun) := by
  have hfile : ∃ f ∈ [(⟨sampleFile "a.py", 1⟩ : StoredFile)], f.id = 1 := by simp
  refine ⟨fun h => ?_, fun h => ?_, fun h => ?_⟩
  · have hbelongs :=
      h.fact "s" [⟨2, 1, "s", .bare "f" .function 1 1⟩] rfl _ (List.mem_singleton_self _)
    exact absurd ((hbelongs "r").1 ⟨_, rfl, hfile⟩) (by decide)
  · have hbelongs :=
      h.fact "s" [⟨1, 1, "s", .bare "f" .function 1 1⟩] rfl _ (List.mem_singleton_self _)
    exact absurd ((hbelongs "r").1 ⟨_, rfl, hfile⟩) (by decide)
  · have hmem : (⟨⟨"r", 1, some 9, none, "import", ".b", 1⟩, 2⟩ : StoredEdge) ∈
        [(⟨⟨"r", 1, some 9, none, "import", ".b", 1⟩, 2⟩ : StoredEdge)] := List.mem_singleton_self _
    have hstored := h "r" _ rfl _ hmem 9 rfl
    have hmissing : (Storage.after MemoryStore.empty danglingRun).contents.hasFile 9 = false := rfl
    rw [(MemoryStore.answersFrom _).stored_iff, hmissing] at hstored
    cases hstored

end CodeSurvey
