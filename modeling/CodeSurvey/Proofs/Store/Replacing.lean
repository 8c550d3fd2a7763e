-- What the database tells of a file once its facts and edges were replaced: just
-- those that were stored, in their order and with nothing changed, under ids that
-- no fact or edge had before. The counters of the tables carry the latter: they never
-- go back, and no row has an id above the counter of its table.
import CodeSurvey.Proofs.Store.Ownership
import Mathlib.Data.List.Induction

namespace CodeSurvey

/-! ## Files of known repositories -/

namespace Contents

/-- Files belong to repositories that are known. -/
def Placed (c : Contents) : Prop := ∀ f ∈ c.files, c.knows f.repository = true

theorem Placed.becomes {c c' : Contents} {r : StoreRequest} (h : c.Placed)
    (hbec : c.Becomes r c') : c'.Placed := by
  cases hbec with
  | same _ => exact h
  | @insertFiles new kept hadmits hkeys _ =>
    intro f hf
    rcases List.mem_append.1 hf with hf | hf
    · exact h f hf
    · have hkey : f.key ∈ new.map (·.key) := hkeys ▸ List.mem_map_of_mem hf
      obtain ⟨g, hg, heq⟩ := List.mem_map.1 hkey
      have hrepository : g.repository = f.repository := congrArg Prod.fst heq
      rw [← hrepository]
      exact hadmits.known g hg
  | clearFiles repository => exact fun f hf => h f (List.mem_filter.1 hf).1
  | replaceFacts _ _ _ _ => exact h
  | updateRepository _ r =>
    intro f hf
    rw [Whole.knows_putRepository, h f hf, Bool.true_or]
  | unknownRepository _ => exact h
  | @deleteRepository id facts edges _ _ =>
    intro f hf
    obtain ⟨hf, hother⟩ := List.mem_filter.1 hf
    obtain ⟨r, hr, hid⟩ := knows_iff.1 (h f hf)
    exact knows_iff.2 ⟨r, List.mem_filter.2 ⟨hr, by rw [hid]; exact hother⟩, hid⟩

end Contents

namespace Relational

/-! ## Counters -/

namespace Table

variable {ρ : Type} {id : ρ → Int64} {t t' t'' : Table ρ}

/-- No row has an id above the counter. -/
def Counted (id : ρ → Int64) (t : Table ρ) : Prop := ∀ r ∈ t.rows, id r ≤ t.lastId

/-- The counter does not go back, and rows have ids from before or ones up to the counter. -/
structure Onward (id : ρ → Int64) (t t' : Table ρ) : Prop where
  counter : t.lastId ≤ t'.lastId
  ids : ∀ r ∈ t'.rows, (∃ old ∈ t.rows, id old = id r) ∨ id r ≤ t'.lastId

theorem Onward.refl (t : Table ρ) : t.Onward id t :=
  ⟨Int64.le_refl _, fun r hr => .inl ⟨r, hr, rfl⟩⟩

theorem Onward.trans (h : t.Onward id t') (h' : t'.Onward id t'') : t.Onward id t'' := by
  refine ⟨Int64.le_trans h.counter h'.counter, fun r hr => ?_⟩
  rcases h'.ids r hr with ⟨old, hold, heq⟩ | hle
  · rcases h.ids old hold with ⟨first, hfirst, hid⟩ | hle
    · exact .inl ⟨first, hfirst, hid.trans heq⟩
    · exact .inr (heq ▸ Int64.le_trans hle h'.counter)
  · exact .inr hle

/-- Rows that are left, with whatever else in them changed, have their ids from before. -/
theorem Onward.of_rows {rows : List ρ} (h : ∀ r ∈ rows, ∃ old ∈ t.rows, id old = id r) :
    t.Onward id ⟨rows, t.lastId⟩ :=
  ⟨Int64.le_refl _, fun r hr => .inl (h r hr)⟩

theorem Onward.of_filter (p : ρ → Bool) : t.Onward id ⟨t.rows.filter p, t.lastId⟩ :=
  .of_rows fun r hr => ⟨r, List.mem_of_mem_filter hr, rfl⟩

theorem Counted.onward (h : t.Counted id) (hon : t.Onward id t') : t'.Counted id := by
  intro r hr
  rcases hon.ids r hr with ⟨old, hold, heq⟩ | hle
  · exact heq ▸ Int64.le_trans (h old hold) hon.counter
  · exact hle

end Table

namespace Database

/-- The counters of facts and edges do not go back. -/
structure Onward (d d' : Database) : Prop where
  facts : d.facts.Onward FactRow.id d'.facts
  edges : d.edges.Onward EdgeRow.id d'.edges

theorem Onward.refl (d : Database) : d.Onward d := ⟨.refl _, .refl _⟩

theorem Onward.trans {d d' d'' : Database} (h : d.Onward d') (h' : d'.Onward d'') : d.Onward d'' :=
  ⟨h.facts.trans h'.facts, h.edges.trans h'.edges⟩

theorem Onward.of_eq {d d' : Database} (hfacts : d'.facts = d.facts) (hedges : d'.edges = d.edges) :
    d.Onward d' :=
  ⟨hfacts ▸ .refl _, hedges ▸ .refl _⟩

theorem Replaced.onward {file : Int64} {newFacts : List StoredFact} {newEdges : List StoredEdge}
    {d d' : Database} (h : Replaced file newFacts newEdges d d') : d.Onward d' := by
  refine ⟨⟨h.factCounter, fun r hr => ?_⟩, ⟨h.edgeCounter, fun r hr => ?_⟩⟩
  · rw [h.rows] at hr
    rcases List.mem_append.1 hr with hr | hr
    · exact .inl ⟨r, List.mem_of_mem_filter hr, rfl⟩
    · obtain ⟨x, hx, rfl⟩ := List.mem_map.1 hr
      exact .inr (h.facts.upTo x.id (List.mem_map_of_mem hx))
  · rw [h.rows] at hr
    rcases List.mem_append.1 hr with hr | hr
    · exact .inl ⟨r, List.mem_of_mem_filter hr, rfl⟩
    · obtain ⟨e, he, rfl⟩ := List.mem_map.1 hr
      exact .inr (h.edges.upTo e.id (List.mem_map_of_mem he))

theorem replaceFacts_answered {file : Int64} {repository : String} {facts : List Fact}
    {edges : List Edge} {d : Database} {u : Unit}
    (hrun : (Storage.replaceFacts file repository facts edges d).1 = .ok u) :
    checkEdges file repository edges = .ok () ∧
      replaceRows file repository facts edges d =
        (.ok (), (Storage.replaceFacts file repository facts edges d).2) := by
  simp only [Storage.replaceFacts] at hrun ⊢
  cases hcheck : checkEdges file repository edges with
  | error e =>
    rw [hcheck] at hrun
    cases hrun
  | ok _ =>
    rw [hcheck] at hrun
    exact ⟨rfl, transaction_answered (Prod.ext hrun rfl)⟩

theorem collect_insertFile_others {new : List NewFile} {stored : List StoredFile}
    {d d' : Database} (hrun : Command.collect insertFile new d = (.ok stored, d')) :
    d'.facts = d.facts ∧ d'.edges = d.edges := by
  induction new generalizing d stored d' with
  | nil =>
    obtain ⟨-, rfl⟩ := Prod.mk.inj hrun
    exact ⟨rfl, rfl⟩
  | cons f new ih =>
    obtain ⟨first, mid, hfirst, hrest⟩ := Command.of_andThen_ok hrun
    obtain ⟨others, mid', hothers, hanswer⟩ := Command.of_andThen_ok hrest
    obtain ⟨-, rfl⟩ := Prod.mk.inj hanswer
    obtain ⟨hfacts, hedges⟩ := ih hothers
    obtain ⟨id, -, -, -, -, rfl⟩ := insertFile_answered hfirst
    exact ⟨hfacts, hedges⟩

theorem deleteFiles_onward (repository : String) (d : Database) :
    d.Onward (deleteFiles repository d).2 := by
  refine ⟨.of_filter _, .of_rows fun r hr => ?_⟩
  obtain ⟨old, hold, rfl⟩ := List.mem_map.1 hr
  exact ⟨old, List.mem_of_mem_filter hold, rfl⟩

/-- Whatever is asked, the counters do not go back. -/
theorem perform_onward {d : Database} {c : Contents} (h : d.Keeps c) (r : StoreRequest) :
    d.Onward (r.perform d).2 := by
  cases hr : (r.perform d).1 with
  | error e =>
    rw [refused hr]
    exact .refl d
  | ok a =>
    cases r with
    | insertFiles new =>
      obtain ⟨stored, hrun⟩ := Command.telling_ok hr
      obtain ⟨hfacts, hedges⟩ :=
        collect_insertFile_others (transaction_answered (Prod.ext hrun rfl))
      exact .of_eq hfacts hedges
    | clearFiles repository => exact deleteFiles_onward repository d
    | replaceFacts file repository facts edges =>
      obtain ⟨_, hrun⟩ := Command.telling_ok hr
      obtain ⟨_, _, hreplaced, -⟩ := replaceRows_answered (replaceFacts_answered hrun).2
      exact hreplaced.onward
    | updateRepository id u =>
      obtain ⟨kept, rows, hrun, -⟩ := updateRow_keeps h id u
      change d.Onward (transaction (updateRow id u) d).2
      rw [transaction_ok hrun]
      exact .of_eq rfl rfl
    | deleteRepository id =>
      let rest : Database :=
        { d with repositories := d.repositories.filter (fun r => r.id != id) }
      have hcleared : rest.Onward (deleteFiles id rest).2 := deleteFiles_onward id rest
      have hnamed : (deleteFiles id rest).2.Onward (deleteRepositoryRow id d).2 :=
        ⟨.of_filter fun x : FactRow => x.repository != id,
          .of_filter fun e : EdgeRow => e.repository != id⟩
      have hrest : d.Onward rest := .of_eq rfl rfl
      exact (hrest.trans hcleared).trans hnamed
    | files repository => exact .refl d
    | factsOfFile file => exact .refl d
    | facts repository => exact .refl d
    | edges repository => exact .refl d
    | repository id => exact .refl d

theorem after_onward (earlier later : List StoreRequest) :
    (Storage.after fresh earlier).Onward (Storage.after fresh (earlier ++ later)) := by
  induction later using List.reverseRecOn with
  | nil =>
    rw [List.append_nil]
    exact .refl _
  | append_singleton later r ih =>
    obtain ⟨c, hkeeps, -⟩ := keeps_after (earlier ++ later)
    rw [← List.append_assoc, Storage.after_append _ (earlier ++ later)]
    exact ih.trans (perform_onward hkeeps r)

/-- After any run, no fact and no edge has an id above the counter of its table. -/
theorem counted_after (run : List StoreRequest) :
    (Storage.after fresh run).facts.Counted FactRow.id ∧
      (Storage.after fresh run).edges.Counted EdgeRow.id := by
  have hon := after_onward [] run
  have hfacts : (Storage.after fresh []).facts.Counted FactRow.id := by
    intro r hr
    exact absurd hr List.not_mem_nil
  have hedges : (Storage.after fresh []).edges.Counted EdgeRow.id := by
    intro r hr
    exact absurd hr List.not_mem_nil
  exact ⟨hfacts.onward hon.facts, hedges.onward hon.edges⟩

end Database

end Relational

/-! ## New ids -/

open Relational (Database FactRow EdgeRow)

/-- At some time in the run, a fact with the id was told of. -/
def FactSeen (run : List StoreRequest) (id : Int64) : Prop :=
  ∃ earlier later, run = earlier ++ later ∧ ∃ q xs,
    (Storage.facts q (Storage.after Database.fresh earlier)).1 = .ok xs ∧ ∃ x ∈ xs, x.id = id

/-- At some time in the run, an edge with the id was told of. -/
def EdgeSeen (run : List StoreRequest) (id : Int64) : Prop :=
  ∃ earlier later, run = earlier ++ later ∧ ∃ q es,
    (Storage.edges q (Storage.after Database.fresh earlier)).1 = .ok es ∧ ∃ e ∈ es, e.id = id

section Ids

variable {run : List StoreRequest} {id : Int64}

theorem FactSeen.le (h : FactSeen run id) :
    id ≤ (Storage.after Database.fresh run).facts.lastId := by
  obtain ⟨earlier, later, rfl, q, xs, hxs, x, hx, rfl⟩ := h
  obtain ⟨c, hkeeps, -⟩ := Database.keeps_after earlier
  rw [(LawfulStorage.answersFrom hkeeps).facts q] at hxs
  obtain rfl := Except.ok.inj hxs
  obtain ⟨row, hrow, hread⟩ :=
    exists_of_mem_left (List.Forall₂.flip hkeeps.facts) (List.mem_of_mem_filter hx)
  have hle := (Database.counted_after earlier).1 row hrow
  rw [FactRow.id_eq hread] at hle
  exact Int64.le_trans hle (Database.after_onward earlier later).facts.counter

theorem EdgeSeen.le (h : EdgeSeen run id) :
    id ≤ (Storage.after Database.fresh run).edges.lastId := by
  obtain ⟨earlier, later, rfl, q, es, hes, e, he, rfl⟩ := h
  obtain ⟨c, hkeeps, -⟩ := Database.keeps_after earlier
  rw [(LawfulStorage.answersFrom hkeeps).edges q] at hes
  obtain rfl := Except.ok.inj hes
  obtain ⟨row, hrow, hread⟩ :=
    exists_of_mem_left (List.Forall₂.flip hkeeps.edges) (List.mem_of_mem_filter he)
  have hle := (Database.counted_after earlier).2 row hrow
  rw [EdgeRow.id_eq hread] at hle
  exact Int64.le_trans hle (Database.after_onward earlier later).edges.counter

end Ids

/-! ## What is told afterwards -/

/-- The database tells of the file just these facts and edges, in this order and under ascending
ids that none had in the run before. -/
structure Returned (before : List StoreRequest) (file : Int64) (repository : String)
    (facts : List Fact) (edges : List Edge) (d : Database) : Prop where
  facts : ∃ xs, (Storage.factsOfFile file d).1 = .ok xs ∧ xs.map (·.fact) = facts ∧
    (∀ x ∈ xs, x.file = file ∧ x.repository = repository ∧ ¬ FactSeen before x.id) ∧
    (xs.map (·.id)).Pairwise (· < ·)
  edges : ∃ all es, (Storage.edges repository d).1 = .ok all ∧
    all.filter (fun e => e.sourceFile == file) = es ∧ es.map (·.toEdge) = edges ∧
    (∀ e ∈ es, e.sourceFile = file ∧ e.repository = repository ∧ ¬ EdgeSeen before e.id) ∧
    (es.map (·.id)).Pairwise (· < ·)

namespace Relational.Database

/-- The tables have ids left for as many facts and edges. -/
structure Room (facts edges : Nat) (d : Database) : Prop where
  facts : d.facts.lastId.toInt + facts < Text.wordSize 63
  edges : d.edges.lastId.toInt + edges < Text.wordSize 63

variable {before : List StoreRequest} {file : Int64} {repository : String} {facts : List Fact}
  {edges : List Edge}

theorem returned_of_replaced {newFacts : List StoredFact} {newEdges : List StoredEdge}
    {d' : Database} (hrep : Replaced file newFacts newEdges (Storage.after fresh before) d')
    (hfacts : newFacts.map (fun x => (x.file, x.repository, x.fact)) =
      facts.map (fun a => (file, repository, a)))
    (hedges : newEdges.map (·.toEdge) = edges)
    (hcheck : checkEdges file repository edges = .ok ()) :
    Returned before file repository facts edges d' := by
  obtain ⟨c, hkeeps, -⟩ := keeps_after before
  have hkept : LawfulStorage.Keeps d' (c.replace file newFacts newEdges) := hrep.leaves hkeeps
  have hreads := LawfulStorage.answersFrom hkept
  have hsource : ∀ e ∈ newEdges, e.sourceFile = file ∧ e.repository = repository := fun e he =>
    checkEdges_iff.1 hcheck e.toEdge (hedges ▸ List.mem_map_of_mem he)
  obtain ⟨hsame, hhang⟩ := hang_of_map_eq hfacts
  refine ⟨⟨newFacts, ?_, hsame, fun x hx => ?_, hrep.facts.ascending⟩,
    ⟨_, newEdges, hreads.edges repository, ?_, hedges, fun e he => ?_, hrep.edges.ascending⟩⟩
  · rw [hreads.factsOfFile file]
    refine congrArg _ (MemoryStore.filter_behind (by simp) fun x hx => ?_)
    exact beq_iff_eq.2 (hhang x hx).1
  · refine ⟨(hhang x hx).1, (hhang x hx).2, fun hseen => ?_⟩
    exact hrep.facts.ne_of_le (List.mem_map_of_mem hx) hseen.le rfl
  · unfold Contents.edgesOf
    rw [List.filter_filter]
    refine MemoryStore.filter_behind (by simp +contextual) fun e he => ?_
    simp [hsource e he]
  · refine ⟨(hsource e he).1, (hsource e he).2, fun hseen => ?_⟩
    exact hrep.edges.ne_of_le (List.mem_map_of_mem he) hseen.le rfl

/-- The facts and edges of a stored file can be replaced as long as there are ids left. -/
theorem replaceFacts_succeeds {d : Database} {c : Contents} (h : d.Keeps c) (hplaced : c.Placed)
    (hfile : StoredFor d repository file)
    (hedges : ∀ e ∈ edges, e.sourceFile = file ∧ e.repository = repository ∧
      ∀ t ∈ e.targetFile, ∃ q, StoredFor d q t)
    (hroom : d.Room facts.length edges.length) :
    (Storage.replaceFacts file repository facts edges d).1 = .ok () := by
  have hkept : LawfulStorage.Keeps d c := h
  have hreads := LawfulStorage.answersFrom hkept
  obtain ⟨f, hf, rfl, rfl⟩ := hreads.storedFor_iff.1 hfile
  have hcheck : checkEdges f.id f.repository edges = .ok () :=
    checkEdges_iff.2 fun e he => ⟨(hedges e he).1, (hedges e he).2.1⟩
  have htargets : ∀ e ∈ edges, ∀ t ∈ e.targetFile, c.hasFile t = true := fun e he t ht =>
    hreads.stored_iff.1 ((hedges e he).2.2 t ht)
  obtain ⟨_, _, _, _, hrun, -⟩ :=
    replaceRows_keeps h hf (hplaced f hf) hcheck htargets hroom.facts hroom.edges
  simp only [Storage.replaceFacts, hcheck]
  rw [transaction_ok hrun]

end Relational.Database

/-- Whatever was asked of the database before, once the facts and edges of a file are replaced it
tells just those, and they can be replaced where the file is stored. -/
theorem replaced_facts_and_edges_are_returned (before : List StoreRequest) (file : Int64)
    (repository : String) (facts : List Fact) (edges : List Edge) :
    let d := Storage.after Database.fresh before
    let replacing := Storage.replaceFacts file repository facts edges d
    (replacing.1 = .ok () → Returned before file repository facts edges replacing.2) ∧
    (StoredFor d repository file →
      (∀ e ∈ edges, e.sourceFile = file ∧ e.repository = repository ∧
        ∀ t ∈ e.targetFile, ∃ q, StoredFor d q t) →
      d.Room facts.length edges.length → replacing.1 = .ok ()) := by
  intro d replacing
  constructor
  · intro hrun
    obtain ⟨hcheck, hrows⟩ := Database.replaceFacts_answered hrun
    obtain ⟨_, _, hreplaced, -, hfacts, hedges, -⟩ := Database.replaceRows_answered hrows
    exact Database.returned_of_replaced hreplaced hfacts hedges hcheck
  · intro hfile hedges hroom
    have hempty : Contents.empty.Placed := by simp [Contents.Placed, Contents.empty]
    obtain ⟨c, hkeeps, -, hplaced⟩ :=
      Database.contents_after hempty (fun h hbec _ => h.becomes hbec) before
    exact Database.replaceFacts_succeeds hkeeps hplaced hfile hedges hroom

/-- Texts that have to be escaped, and parameters that are empty or missing. -/
def markedFacts : List Fact :=
  [⟨"f", .method, "f(a=\"\\\")", some "", 1, 2,
      some [⟨"a\"\\\u0001", some "\n", true, some "'\x7f"⟩], some "é", true, true,
      some .isProtected⟩,
    ⟨"", .class_, "", none, 0, 4294967295, some [], none, false, false, none⟩,
    .bare "g" .function 3 3]

/-- The edge leads back to its file, or out of the repository. -/
def markedEdges : List Edge :=
  [⟨"r", 1, some 1, none, "import", ".", 1⟩, ⟨"r", 1, none, some "\"os\"", "import", "'", 0⟩]

theorem marked_facts_are_returned :
    (Storage.replaceFacts 1 "r" markedFacts markedEdges
      (Storage.after Database.fresh describedRun)).1 = .ok () ∧
    Returned describedRun 1 "r" markedFacts markedEdges
      (Storage.replaceFacts 1 "r" markedFacts markedEdges
        (Storage.after Database.fresh describedRun)).2 := by
  obtain ⟨hreturned, hsucceeds⟩ :=
    replaced_facts_and_edges_are_returned describedRun 1 "r" markedFacts markedEdges
  have hfile : StoredFor (Storage.after Database.fresh describedRun) "r" 1 :=
    ⟨[⟨sampleFile "a.py", 1⟩], rfl, by simp⟩
  have hedges : ∀ e ∈ markedEdges, e.sourceFile = 1 ∧ e.repository = "r" ∧ ∀ t ∈ e.targetFile,
      ∃ q, StoredFor (Storage.after Database.fresh describedRun) q t := by
    intro e he
    rcases List.mem_cons.1 he with rfl | he
    · exact ⟨rfl, rfl, fun t ht => ⟨"r", Option.some.inj ht ▸ hfile⟩⟩
    · obtain rfl := List.mem_singleton.1 he
      exact ⟨rfl, rfl, by simp⟩
  have hrun := hsucceeds hfile hedges ⟨by decide, by decide⟩
  exact ⟨hrun, hreturned hrun⟩

end CodeSurvey
