-- What every store has to keep to. What it holds is told by contents that its
-- operations change in one and the same way; only the ids are up to the store,
-- which counts them up for each kind of record.
import CodeSurvey.Proofs.Store.Contents
import Mathlib.Algebra.GroupWithZero.Nat

namespace CodeSurvey

/-! ## Ids -/

/-- The kinds of records that have numbers for ids. -/
inductive RecordKind where
  | file
  | fact
  | edge
deriving DecidableEq, Repr

abbrev LastIds := RecordKind → Int64

/-- So many more ids can be given out. -/
def LastIds.Room (n : Nat) (l : LastIds) : Prop := ∀ k, (l k).toInt + n < Text.wordSize 63

/-- At most so many more ids were given out. -/
def LastIds.Counts (n : Nat) (l l' : LastIds) : Prop :=
  ∀ k, (l k).toInt ≤ (l' k).toInt ∧ (l' k).toInt ≤ (l k).toInt + n

theorem LastIds.Counts.refl (l : LastIds) : l.Counts 0 l := fun _ => ⟨Int.le_refl _, by simp⟩

theorem LastIds.Counts.mono {m n : Nat} {l l' : LastIds} (h : l.Counts m l') (hmn : m ≤ n) :
    l.Counts n l' := by
  intro k
  have := h k
  omega

theorem LastIds.Counts.trans {m n : Nat} {l l' l'' : LastIds} (h : l.Counts m l')
    (h' : l'.Counts n l'') : l.Counts (m + n) l'' := by
  intro k
  have := h k
  have := h' k
  omega

theorem LastIds.Room.mono {m n : Nat} {l : LastIds} (h : l.Room n) (hmn : m ≤ n) : l.Room m := by
  intro k
  have := h k
  omega

theorem LastIds.Room.after {m n : Nat} {l l' : LastIds} (h : l.Room (m + n)) (hc : l.Counts m l') :
    l'.Room n := by
  intro k
  have := h k
  have := hc k
  omega

/-- Where no ids were given out, there is as much room as before. -/
theorem LastIds.Room.still {n : Nat} {l l' : LastIds} (h : l.Room n) (hc : l.Counts 0 l') :
    l'.Room n := by
  intro k
  have := h k
  have := hc k
  omega

theorem toInt_next {i : Int64} (h : i.toInt + 1 < Text.wordSize 63) :
    (i + 1).toInt = i.toInt + 1 := by
  have hsize : (Text.wordSize 63 : Int) = 2 ^ 63 := rfl
  have hlow := Int64.le_toInt i
  rw [Int64.toInt_add, Int64.toInt_one, Int.bmod_eq_of_le] <;> omega

/-- Ids that count up behind one and reach another at most. -/
structure Numbered (lo hi : Int64) (ids : List Int64) : Prop where
  ascending : ids.Pairwise (· < ·)
  above : ∀ i ∈ ids, lo < i
  upTo : ∀ i ∈ ids, i ≤ hi

theorem Numbered.nil (lo hi : Int64) : Numbered lo hi [] :=
  ⟨.nil, by simp, by simp⟩

/-- An id comes first, where others follow behind that. -/
theorem Numbered.cons {lo id hi : Int64} {ids : List Int64} (hid : lo < id) (hhi : id ≤ hi)
    (h : Numbered id hi ids) : Numbered lo hi (id :: ids) := by
  refine ⟨List.pairwise_cons.2 ⟨h.above, h.ascending⟩, ?_, ?_⟩
  · intro i hi
    rcases List.mem_cons.1 hi with rfl | hi
    · exact hid
    · have := h.above i hi
      rw [Int64.lt_iff_toInt_lt] at hid this ⊢
      omega
  · intro i hi
    rcases List.mem_cons.1 hi with rfl | hi
    · exact hhi
    · exact h.upTo i hi

theorem Numbered.next {lo hi : Int64} {ids : List Int64} (h : Numbered (lo + 1) hi ids)
    (hroom : lo.toInt + 1 < Text.wordSize 63) (hhi : lo.toInt + 1 ≤ hi.toInt) :
    Numbered lo hi ((lo + 1) :: ids) := by
  have hnext := toInt_next hroom
  refine .cons ?_ ?_ h
  · rw [Int64.lt_iff_toInt_lt]
    omega
  · rw [Int64.le_iff_toInt_le]
    omega

theorem Numbered.nodup {lo hi : Int64} {ids : List Int64} (h : Numbered lo hi ids) : ids.Nodup := by
  refine h.ascending.imp ?_
  rintro i _ hlt rfl
  rw [Int64.lt_iff_toInt_lt] at hlt
  omega

/-- No id that was given out before is among them. -/
theorem Numbered.ne_of_le {lo hi i j : Int64} {ids : List Int64} (h : Numbered lo hi ids)
    (hmem : i ∈ ids) (hle : j ≤ lo) : i ≠ j := by
  rintro rfl
  have hlt := h.above i hmem
  rw [Int64.lt_iff_toInt_lt] at hlt
  rw [Int64.le_iff_toInt_le] at hle
  omega

theorem Numbered.of_append {lo hi : Int64} {ids others : List Int64}
    (h : Numbered lo hi (ids ++ others)) : Numbered lo hi ids ∧ Numbered lo hi others := by
  obtain ⟨hids, hothers, -⟩ := List.pairwise_append.1 h.ascending
  exact ⟨⟨hids, fun i hi => h.above i (List.mem_append_left _ hi),
      fun i hi => h.upTo i (List.mem_append_left _ hi)⟩,
    ⟨hothers, fun i hi => h.above i (List.mem_append_right _ hi),
      fun i hi => h.upTo i (List.mem_append_right _ hi)⟩⟩

/-- The ids are the next ones behind one id, and the other id is then the last. -/
inductive CountedUp : Int64 → List Int64 → Int64 → Prop
  | nil (lo : Int64) : CountedUp lo [] lo
  | next {lo hi : Int64} {ids : List Int64} :
      CountedUp (lo + 1) ids hi → CountedUp lo ((lo + 1) :: ids) hi

theorem CountedUp.append {lo mid hi : Int64} {ids others : List Int64} (h : CountedUp lo ids mid)
    (h' : CountedUp mid others hi) : CountedUp lo (ids ++ others) hi := by
  induction h with
  | nil => exact h'
  | next _ ih => exact .next (ih h')

/-- Ids are in order as long as the counter does not run over. -/
theorem CountedUp.numbered {lo hi : Int64} {ids : List Int64} (h : CountedUp lo ids hi)
    (hroom : lo.toInt + ids.length < Text.wordSize 63) :
    Numbered lo hi ids ∧ hi.toInt = lo.toInt + ids.length := by
  induction h with
  | nil lo => exact ⟨.nil lo lo, by simp⟩
  | @next lo hi ids _ ih =>
    rw [List.length_cons] at hroom ⊢
    have hnext : (lo + 1).toInt = lo.toInt + 1 := toInt_next (by omega)
    obtain ⟨hids, hhi⟩ := ih (by omega)
    exact ⟨hids.next (by omega) (by omega), by omega⟩

/-! ## Edges of a file -/

/-- The check finds nothing when every edge starts at the file, in its repository. -/
theorem checkEdges_iff {file : Int64} {repository : String} {edges : List Edge} :
    checkEdges file repository edges = .ok () ↔
      ∀ e ∈ edges, e.sourceFile = file ∧ e.repository = repository := by
  unfold checkEdges
  split
  · rename_i e he
    have hmem := List.mem_of_find?_eq_some he
    have hbad := List.find?_some he
    simp only [reduceCtorEq, false_iff]
    intro h
    simp [h e hmem] at hbad
  · rename_i he
    rw [List.find?_eq_none] at he
    simp only [true_iff]
    intro e hmem
    have := he e hmem
    simpa using this

/-- Facts that are stored for a file are these facts, and hang on the file. -/
theorem hang_of_map_eq {xs : List StoredFact} {facts : List Fact} {file : Int64}
    {repository : String} (h : xs.map (fun x => (x.file, x.repository, x.fact)) =
      facts.map (fun a => (file, repository, a))) :
    xs.map (·.fact) = facts ∧ ∀ x ∈ xs, x.file = file ∧ x.repository = repository := by
  constructor
  · have := congrArg (List.map (fun t : Int64 × String × Fact => t.2.2)) h
    simpa [List.map_map, Function.comp_def] using this
  · intro x hx
    have hmem := List.mem_map_of_mem (f := fun x : StoredFact => (x.file, x.repository, x.fact)) hx
    rw [h] at hmem
    obtain ⟨a, -, heq⟩ := List.mem_map.1 hmem
    simp only [Prod.mk.injEq] at heq
    exact ⟨heq.1.symm, heq.2.1.symm⟩

/-! ## Stores -/

/-- A store that keeps to its contents. -/
class LawfulStorage (σ : Type) [Storage σ] where
  /-- The store holds the contents. -/
  Keeps : σ → Contents → Prop
  /-- The ids that the store gave out last. -/
  last : σ → LastIds
  file_le_last {s : σ} {c : Contents} : Keeps s c → ∀ f ∈ c.files, f.id ≤ last s .file
  insertFiles_ok {s : σ} {c : Contents} {new : List NewFile} : Keeps s c → c.Admits new →
    (∀ f ∈ new, f.Fits) → (last s).Room new.length →
    ∃ stored s', Storage.insertFiles new s = (.ok stored, s') ∧
      stored.map (·.toNewFile) = new ∧
      Numbered (last s .file) (last s' .file) (stored.map (·.id)) ∧
      (last s).Counts new.length (last s') ∧ Keeps s' (c.addFiles stored)
  insertFiles_refused {s : σ} {c : Contents} {new : List NewFile} : Keeps s c → ¬ c.Admits new →
    (∀ f ∈ new, f.Fits) → (last s).Room new.length →
    ∃ e, Storage.insertFiles new s = (.error e, s)
  files {s : σ} {c : Contents} (repository : String) : Keeps s c →
    Storage.files repository s = (.ok (c.filesOf repository), s)
  clearFiles {s : σ} {c : Contents} (repository : String) : Keeps s c → c.Whole →
    ∃ s', Storage.clearFiles repository s = (.ok (c.filesOf repository).length, s') ∧
      (last s).Counts 0 (last s') ∧ Keeps s' (c.clear repository)
  replaceFacts_ok {s : σ} {c : Contents} {f : StoredFile} {facts : List Fact} {edges : List Edge} :
    Keeps s c → c.Whole → f ∈ c.files → checkEdges f.id f.repository edges = .ok () →
    (∀ e ∈ edges, ∀ t ∈ e.targetFile, c.hasFile t = true) →
    (last s).Room (facts.length + edges.length) →
    ∃ newFacts newEdges s', Storage.replaceFacts f.id f.repository facts edges s = (.ok (), s') ∧
      newFacts.map (fun x => (x.file, x.repository, x.fact)) =
        facts.map (fun a => (f.id, f.repository, a)) ∧
      newEdges.map (·.toEdge) = edges ∧
      Numbered (last s .fact) (last s' .fact) (newFacts.map (·.id)) ∧
      Numbered (last s .edge) (last s' .edge) (newEdges.map (·.id)) ∧
      (last s).Counts (facts.length + edges.length) (last s') ∧
      Keeps s' (c.replace f.id newFacts newEdges)
  replaceFacts_refused {s : σ} {c : Contents} {file : Int64} {repository : String}
    {edges : List Edge} (facts : List Fact) : Keeps s c →
    checkEdges file repository edges ≠ .ok () ∨ c.hasFile file = false →
    ∃ e, Storage.replaceFacts file repository facts edges s = (.error e, s)
  factsOfFile {s : σ} {c : Contents} (file : Int64) : Keeps s c →
    Storage.factsOfFile file s = (.ok (c.factsOfFile file), s)
  facts {s : σ} {c : Contents} (repository : String) : Keeps s c →
    Storage.facts repository s = (.ok (c.factsOf repository), s)
  edges {s : σ} {c : Contents} (repository : String) : Keeps s c →
    Storage.edges repository s = (.ok (c.edgesOf repository), s)
  /-- A record that does not fit the store may be kept changed. -/
  updateRepository {s : σ} {c : Contents} (id : String) (u : RepositoryUpdate) : Keeps s c →
    ∃ kept s', Storage.updateRepository id u s = (.ok (c.updated id u), s') ∧ kept.id = id ∧
      ((c.updated id u).Fits → kept = c.updated id u) ∧ (last s).Counts 0 (last s') ∧
      Keeps s' (c.putRepository kept)
  repository {s : σ} {c : Contents} (id : String) : Keeps s c →
    Storage.repository id s = (.ok (c.repositoryOf id), s)
  deleteRepository {s : σ} {c : Contents} (id : String) : Keeps s c → c.Whole →
    ∃ s', Storage.deleteRepository id s = (.ok (c.knows id), s') ∧
      (last s).Counts 0 (last s') ∧ Keeps s' (c.delete id)

end CodeSurvey
