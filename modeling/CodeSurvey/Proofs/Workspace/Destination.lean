-- The directory of a repository in the workspace: one name below the root, whatever
-- the repository's id, and which ids share it.
import CodeSurvey.Proofs.Disk.Path
import CodeSurvey.Proofs.Text.Blank
import CodeSurvey.Workspace

namespace CodeSurvey.Workspace

open CodeSurvey.Path (IsName)

/-! ## Names -/

/-- What stands for a character of an id in the name of a directory. -/
def kept (c : Char) : Char := if isPlain c then c else '_'

theorem kept_ne_slash (c : Char) : kept c ≠ '/' := by
  unfold kept
  split
  · rintro rfl
    contradiction
  · decide

theorem directoryName_eq (repository : String) : directoryName repository =
    if Text.dropAroundWhile (· = '.') (repository.toList.map kept) = [] then "repository"
    else String.ofList (Text.dropAroundWhile (· = '.') (repository.toList.map kept)) := rfl

/-- Whatever the id, its directory has a name that leads one directory further in. -/
theorem isName_directoryName (repository : String) : IsName (directoryName repository) := by
  rw [directoryName_eq]
  split
  · decide
  · rename_i hne
    have hlast : ∀ l : List Char, Text.dropAroundWhile (· = '.') (repository.toList.map kept) = l →
        l.getLast? ≠ some '.' := by
      rintro l rfl hdot
      simpa using Text.getLast?_dropAroundWhile hdot
    have hof : ∀ l : List Char, String.ofList (Text.dropAroundWhile (· = '.')
        (repository.toList.map kept)) = String.ofList l →
        Text.dropAroundWhile (· = '.') (repository.toList.map kept) = l := by
      intro l h
      simpa using congrArg String.toList h
    refine ⟨fun h => hne (hof [] h), fun h => hlast _ (hof ['.'] h) rfl,
      fun h => hlast _ (hof ['.', '.'] h) rfl, fun h => ?_⟩
    rw [String.toList_ofList] at h
    obtain ⟨c, -, hc⟩ := List.mem_map.1 (Text.mem_dropAroundWhile h)
    exact kept_ne_slash c hc

/-- An id of plain characters without dots at its ends is the name of its directory. -/
theorem directoryName_of_plain {repository : String} (hne : repository ≠ "")
    (hplain : ∀ c ∈ repository.toList, isPlain c = true)
    (hfirst : repository.toList.head? ≠ some '.') (hlast : repository.toList.getLast? ≠ some '.') :
    directoryName repository = repository := by
  have hkept : repository.toList.map kept = repository.toList := by
    have hc : ∀ c ∈ repository.toList, kept c = id c := fun c hc => if_pos (hplain c hc)
    rw [List.map_congr_left hc, List.map_id]
  have hend : ∀ o : Option Char, o ≠ some '.' → ∀ c, o = some c → decide (c = '.') = false := by
    rintro o ho c rfl
    simpa using ho
  have hcut := Text.dropAroundWhile_eq_self (hend _ hfirst) (hend _ hlast)
  rw [directoryName_eq, hkept, hcut, if_neg (by simpa using hne), String.ofList_toList]

/-! ## Paths -/

variable (w : Workspace)

theorem destination_eq (repository : String) :
    w.destination repository = Path.join w.root ("/".intercalate [directoryName repository]) := by
  rw [String.intercalate_singleton]
  rfl

theorem parts_destination (repository : String) :
    Path.parts (w.destination repository) =
      Path.parts w.root ++ [.name (directoryName repository)] := by
  have hname : ∀ s ∈ [directoryName repository], IsName s := by
    simpa using isName_directoryName repository
  rw [destination_eq, Path.parts_join w.root (by simp) hname]
  rfl

theorem destination_eq_iff (a b : String) :
    w.destination a = w.destination b ↔ directoryName a = directoryName b := by
  constructor
  · intro h
    have := congrArg Path.parts h
    rw [parts_destination, parts_destination] at this
    simpa using this
  · intro h
    rw [destination_eq, destination_eq, h]

/-- Directories with two names are side by side. -/
theorem not_prefix_destination {a b : String} (h : directoryName a ≠ directoryName b) :
    ¬ Path.parts (w.destination a) <+: Path.parts (w.destination b) := by
  rw [parts_destination, parts_destination]
  intro hle
  rw [List.prefix_append_right_inj] at hle
  exact h (by simpa using hle)

end CodeSurvey.Workspace
