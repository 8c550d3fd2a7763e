-- The entries of an archive before anything is written: which of them are safe,
-- and to which names below the directory those go.
import CodeSurvey.Proofs.Disk.Path
import CodeSurvey.Disk.Archive

namespace CodeSurvey.Disk

open CodeSurvey.Path (moves IsName ofStep)

/-- The entry may lead out of the directory that an archive is unpacked to: it is a link, or
its name, with all slashes leaning one way, starts at the root, has a drive or goes back. -/
def ArchiveEntry.Unsafe (e : ArchiveEntry) : Prop :=
  (∃ mode, e.mode = some mode ∧ mode &&& 0o170000 = 0o120000) ∨
    (evenSlashes e.name).toList.head? = some '/' ∨ ':' ∈ (evenSlashes e.name).toList ∨
    ".." ∈ pieces (evenSlashes e.name)

/-- The names below the directory that an entry spells. -/
def ArchiveEntry.names (e : ArchiveEntry) : List String :=
  (pieces (evenSlashes e.name)).filter moves

def ArchiveEntry.placed (e : ArchiveEntry) : Placed := ⟨e.names, e⟩

theorem nameOfPart_ofStep {s : String} (h : s ≠ "..") : nameOfPart (ofStep s) = some [s] := by
  rw [ofStep, if_neg h]
  rfl

theorem mapM_nameOfPart {steps : List String} (h : ".." ∉ steps) :
    (steps.map ofStep).mapM nameOfPart = some (steps.map fun s => [s]) := by
  induction steps with
  | nil => rfl
  | cons s steps ih =>
    have hs : s ≠ ".." := fun e => h (e ▸ List.mem_cons_self)
    have hrest := ih fun hmem => h (List.mem_cons_of_mem _ hmem)
    rw [List.map_cons, List.mapM_cons, nameOfPart_ofStep hs, hrest]
    rfl

theorem mapM_nameOfPart_back {steps : List String} (h : ".." ∈ steps) :
    (steps.map ofStep).mapM nameOfPart = none := by
  induction steps with
  | nil => simp at h
  | cons s steps ih =>
    rw [List.map_cons, List.mapM_cons]
    by_cases hs : s = ".."
    · subst hs
      rfl
    · rw [nameOfPart_ofStep hs, ih (by simpa [Ne.symm hs] using h)]
      rfl

/-- A name is safe if it has none of what leads elsewhere, and then its names are the pieces
that move. -/
theorem safeNames?_eq (name : String) : safeNames? name =
    if (evenSlashes name).toList.head? = some '/' ∨ ':' ∈ (evenSlashes name).toList ∨
        ".." ∈ pieces (evenSlashes name) then none
    else some ((pieces (evenSlashes name)).filter moves) := by
  have hup : ".." ∈ (pieces (evenSlashes name)).filter moves ↔
      ".." ∈ pieces (evenSlashes name) := by
    simp [List.mem_filter, moves]
  have habsolute : Path.isAbsolute (evenSlashes name) = true ↔
      (evenSlashes name).toList.head? = some '/' := decide_eq_true_iff
  unfold safeNames?
  by_cases hlead : (evenSlashes name).toList.head? = some '/' ∨ ':' ∈ (evenSlashes name).toList
  · rw [if_pos (by simpa [habsolute] using hlead), if_pos (hlead.imp_right .inl)]
  · obtain ⟨hhead, hcolon⟩ := not_or.1 hlead
    have hfront : Path.lead (evenSlashes name) = [] ∨ Path.lead (evenSlashes name) = [.here] := by
      rw [Path.lead, if_neg (mt habsolute.1 hhead)]
      split
      · exact .inr rfl
      · exact .inl rfl
    have hmap : ∀ l : List Path.Part, l = [] ∨ l = [.here] → ∀ steps : List Path.Part,
        ((l ++ steps).mapM nameOfPart).map List.flatten =
          (steps.mapM nameOfPart).map List.flatten := by
      rintro l (rfl | rfl) steps
      · rfl
      · rw [List.singleton_append, List.mapM_cons]
        cases steps.mapM nameOfPart <;> rfl
    rw [if_neg (by simp [habsolute, hhead, hcolon]), Path.parts_eq, hmap _ hfront]
    by_cases hback : ".." ∈ pieces (evenSlashes name)
    · rw [mapM_nameOfPart_back (hup.2 hback), if_pos (.inr (.inr hback))]
      rfl
    · rw [mapM_nameOfPart (mt hup.1 hback), if_neg (by simp [hhead, hcolon, hback]),
        Option.map_some, ← List.flatMap_def, List.flatMap_singleton']

theorem isLink_iff (e : ArchiveEntry) : e.isLink = true ↔
    ∃ mode, e.mode = some mode ∧ mode &&& 0o170000 = 0o120000 := by
  rw [ArchiveEntry.isLink, Option.any_eq_true]
  exact exists_congr fun mode => and_congr_right fun _ => decide_eq_true_iff

theorem plan_cons (e : ArchiveEntry) (entries : List ArchiveEntry) :
    e.Unsafe ∧ plan (e :: entries) = .error (.unsafeEntry e.name) ∨
      ¬ e.Unsafe ∧ plan (e :: entries) = (plan entries).map (e.placed :: ·) := by
  rw [plan, safeNames?_eq]
  by_cases hlink : e.isLink = true
  · exact .inl ⟨.inl ((isLink_iff e).1 hlink), if_pos hlink⟩
  · rw [if_neg hlink]
    by_cases hname : (evenSlashes e.name).toList.head? = some '/' ∨
        ':' ∈ (evenSlashes e.name).toList ∨ ".." ∈ pieces (evenSlashes e.name)
    · rw [if_pos hname]
      exact .inl ⟨.inr hname, rfl⟩
    · rw [if_neg hname]
      refine .inr ⟨fun h => h.elim (fun h => hlink ((isLink_iff e).2 h)) hname, ?_⟩
      cases plan entries <;> rfl

/-- One entry that is not safe is enough to refuse all of them. -/
theorem plan_refused {entries : List ArchiveEntry} (h : ∃ e ∈ entries, e.Unsafe) :
    ∃ e ∈ entries, e.Unsafe ∧ plan entries = .error (.unsafeEntry e.name) := by
  induction entries with
  | nil => simp at h
  | cons e entries ih =>
    rcases plan_cons e entries with ⟨hbad, hplan⟩ | ⟨hsafe, hplan⟩
    · exact ⟨e, List.mem_cons_self, hbad, hplan⟩
    · obtain ⟨f, hf, hfbad⟩ := h
      rcases List.mem_cons.1 hf with rfl | hf
      · exact absurd hfbad hsafe
      · obtain ⟨g, hg, hgbad, hrest⟩ := ih ⟨f, hf, hfbad⟩
        exact ⟨g, List.mem_cons_of_mem _ hg, hgbad, by rw [hplan, hrest]; rfl⟩

/-- Safe entries go to the names that they spell. -/
theorem plan_safe {entries : List ArchiveEntry} (h : ∀ e ∈ entries, ¬ e.Unsafe) :
    plan entries = .ok (entries.map ArchiveEntry.placed) := by
  induction entries with
  | nil => rfl
  | cons e entries ih =>
    rcases plan_cons e entries with ⟨hbad, -⟩ | ⟨-, hplan⟩
    · exact absurd hbad (h e List.mem_cons_self)
    · rw [hplan, ih fun f hf => h f (List.mem_cons_of_mem _ hf)]
      rfl

theorem ArchiveEntry.isName_names {e : ArchiveEntry} (h : ¬ e.Unsafe) :
    ∀ s ∈ e.names, IsName s := by
  intro s hs
  refine Path.isName_of_moves hs ?_
  rintro rfl
  exact h (.inr (.inr (.inr (List.mem_filter.1 hs).1)))

end CodeSurvey.Disk
