-- How the directory of a repository is prepared: what was there is removed, and a new
-- one is made where the same path leads then. Nothing else on the disk changes but
-- for new directories above.
import CodeSurvey.Proofs.Disk.Unpacking
import CodeSurvey.Proofs.Workspace.Destination

namespace CodeSurvey

open CodeSurvey.Path (ZeroFree)

namespace Disk

/-! ## Removing -/

variable {d d₁ : Disk} {path : String}

/-- What was at a path was removed, or there was nothing. -/
def Vacated (path : String) (d d₁ : Disk) : Prop :=
  d.removeDirectory path = .ok d₁ ∨ d.removeDirectory path = .error .noEntry ∧ d₁ = d

theorem removeDirectory_at {X : List String} (hX : d.locate false path = .ok X) :
    d.removeDirectory path =
      match d.root.at? X with
      | some (.file _) => .error .notDirectory
      | _ => .ok { d with root := d.root.drop X } := by
  have hremove : d.remove path = .ok { d with root := d.root.drop X } := by
    rw [remove, hX]
    rfl
  rw [removeDirectory, hX, ← hremove]
  rfl

theorem removeDirectory_directory {X : List String} {es : List (String × Node)}
    (hX : d.locate false path = .ok X) (hdir : d.root.at? X = some (.directory es)) :
    d.removeDirectory path = .ok { d with root := d.root.drop X } := by
  rw [removeDirectory_at hX, hdir]

theorem removeDirectory_ok (h : d.removeDirectory path = .ok d₁) :
    ∃ X, d.locate false path = .ok X ∧ d₁ = { d with root := d.root.drop X } := by
  cases hX : d.locate false path with
  | error i =>
    rw [removeDirectory, hX] at h
    cases h
  | ok X =>
    rw [removeDirectory_at hX] at h
    split at h
    · cases h
    · exact ⟨X, rfl, (Except.ok.inj h).symm⟩

theorem removeDirectory_noEntry (h : d.removeDirectory path = .error .noEntry) :
    d.locate false path = .error .noEntry := by
  cases hX : d.locate false path with
  | error i =>
    rw [removeDirectory, hX] at h
    exact congrArg _ (Except.error.inj h)
  | ok X =>
    rw [removeDirectory_at hX] at h
    split at h <;> cases h

theorem zeroFree_of_locate {last : Bool} {X : List String} (h : d.locate last path = .ok X) :
    ZeroFree path := by
  by_contra hzero
  rw [locate, place_zero last hzero] at h
  cases h

namespace Vacated

theorem same (h : Vacated path d d₁) : d₁.workingDirectory = d.workingDirectory := by
  rcases h with h | ⟨-, rfl⟩
  · obtain ⟨X, -, rfl⟩ := removeDirectory_ok h
    rfl
  · rfl

theorem zeroFree (h : Vacated path d d₁) : ZeroFree path := by
  rcases h with h | ⟨h, -⟩
  · obtain ⟨X, hX, -⟩ := removeDirectory_ok h
    exact zeroFree_of_locate hX
  · by_contra hzero
    have := removeDirectory_noEntry h
    rw [locate, place_zero false hzero] at this
    cases this

/-- What is removed was at the place of the path or below it. -/
theorem removed (h : Vacated path d d₁) {q : List String}
    (hq : d₁.root.stands q ≠ d.root.stands q) : ∃ X, d.locate false path = .ok X ∧ X <+: q := by
  rcases h with h | ⟨-, rfl⟩
  · obtain ⟨X, hX, rfl⟩ := removeDirectory_ok h
    refine ⟨X, hX, ?_⟩
    by_contra hle
    exact hq (Node.stands_drop _ hle)
  · exact absurd rfl hq

end Vacated

end Disk

namespace Workspace

open Disk

variable {w : Workspace} {repository : String} {d d₁ : Disk}

/-! ## The place of a destination -/

theorem place_destination (last : Bool) (hzero : ZeroFree (w.destination repository)) :
    d.place last (w.destination repository) = (d.way (Path.parts w.root)).bind fun x =>
      follow d.root last x.1 x.2 [directoryName repository] := by
  rw [destination_eq] at hzero ⊢
  exact place_join w.root last (by simp) (by simpa using isName_directoryName repository) hzero

/-- Something is at the destination if the root leads to a directory that has its name. -/
theorem locate_destination {X : List String} :
    d.locate false (w.destination repository) = .ok X ↔
      ZeroFree (w.destination repository) ∧ Fits (directoryName repository) ∧
        ∃ l H, d.way (Path.parts w.root) = .ok (l, H) ∧ X = H ++ [directoryName repository] ∧
          (d.root.at? X).isSome := by
  have hname := isName_directoryName repository
  rw [locate_ok]
  constructor
  · intro h
    have hzero := zeroFree_of_locate (locate_ok.2 h)
    rw [place_destination false hzero] at h
    obtain ⟨⟨l, H⟩, hway, hend⟩ := of_bind_ok h
    rcases follow_name d.root l H hname with ⟨-, -, -, hfollow⟩ | ⟨hsome, hfits, hfollow⟩ |
      ⟨-, i, -, hfollow⟩
    · rw [hfollow] at hend
      cases hend
    · rw [hfollow] at hend
      obtain rfl : H ++ [directoryName repository] = X := by simpa using hend
      exact ⟨hzero, hfits, l, H, hway, rfl, hsome⟩
    · rw [hfollow] at hend
      cases hend
  · rintro ⟨hzero, hfits, l, H, hway, rfl, hsome⟩
    rw [place_destination false hzero, hway]
    show follow d.root false l H [directoryName repository] = _
    rcases follow_name d.root l H hname with ⟨-, -, hnone, -⟩ | ⟨-, -, hfollow⟩ | ⟨hnot, -⟩
    · rw [hnone] at hsome
      cases hsome
    · exact hfollow
    · exact absurd ⟨hfits, hsome⟩ hnot

/-- Something is at the destination if the way goes on to it. -/
theorem locate_of_way (hzero : ZeroFree (w.destination repository)) {x : Nat × List String}
    (h : d.way (Path.parts (w.destination repository)) = .ok x) :
    ∃ X, d.locate false (w.destination repository) = .ok X := by
  have hsingle : [Path.Part.name (directoryName repository)] =
      [directoryName repository].map .name := rfl
  rw [parts_destination, hsingle, way_names] at h
  obtain ⟨⟨l, H⟩, hway, hwalk⟩ := of_bind_ok h
  obtain ⟨t, ht, -⟩ := of_walk_cons hwalk
  have hname := isName_directoryName repository
  obtain ⟨hfits, hsome⟩ : Fits (directoryName repository) ∧
      (d.root.at? (H ++ [directoryName repository])).isSome := by
    obtain ⟨-, ⟨hstays, -⟩ | ⟨hup, -⟩ | ⟨-, -, hfits, ⟨y, hy, -⟩, -⟩ |
      ⟨-, -, hfits, target, left, hlink, -⟩⟩ := turn_cases ht
    · rw [hname.moves] at hstays
      cases hstays
    · exact absurd hup hname.2.2.1
    · exact ⟨hfits, by rw [hy]; rfl⟩
    · exact ⟨hfits, by rw [hlink]; rfl⟩
  exact ⟨_, locate_destination.2 ⟨hzero, hfits, l, H, hway, rfl, hsome⟩⟩

theorem vacated_shrinks (h : Vacated (w.destination repository) d d₁) :
    Extends d₁.root d.root := by
  rcases h with h | ⟨-, rfl⟩
  · obtain ⟨X, hX, rfl⟩ := removeDirectory_ok h
    obtain ⟨-, -, l, H, -, rfl, -⟩ := locate_destination.1 hX
    intro q b hb
    by_cases hq : H ++ [directoryName repository] <+: q
    · obtain ⟨rest, rfl⟩ := hq
      rw [Node.stands, Node.at?_drop _ (by simp)] at hb
      cases hb
    · rw [← hb]
      exact (Node.stands_drop _ hq).symm
  · exact fun q b hb => hb

/-- Nothing is at the destination behind a removal. -/
theorem vacated_missing (h : Vacated (w.destination repository) d d₁) (X : List String) :
    d₁.locate false (w.destination repository) ≠ .ok X := by
  intro hX
  have hshrinks := vacated_shrinks h
  have hbegin : d.begin (Path.parts w.root) = d₁.begin (Path.parts w.root) := by
    simp only [begin, h.same]
  rcases h with h | ⟨h, rfl⟩
  · obtain ⟨Y, hY, rfl⟩ := removeDirectory_ok h
    obtain ⟨-, -, l, H, hway, rfl, hsome⟩ := locate_destination.1 hX
    obtain ⟨-, -, l', H', hway', rfl, -⟩ := locate_destination.1 hY
    have hold := hshrinks.walk hway
    rw [way, hbegin, hold] at hway'
    obtain ⟨-, rfl⟩ : l = l' ∧ H = H' := by simpa using hway'
    have hnone := Node.at?_drop d.root (by simp : H ++ [directoryName repository] ≠ []) []
    rw [List.append_nil] at hnone
    rw [hnone] at hsome
    cases hsome
  · rw [removeDirectory_noEntry h] at hX
    cases hX

/-! ## Preparing -/

theorem prepare_eq {path : String} (h : Vacated path d d₁) :
    prepare path d = ensureDirectories path d₁ := by
  rcases h with h | ⟨h, rfl⟩
  · rw [prepare, h]
  · rw [prepare, h]

/-- Behind a chain that stopped too early the destination is missing. -/
theorem missing_of_stuck {before rest : List Path.Part} {first : String}
    {behind above : List String} {l : Nat} {d₂ : Disk} (hfirm : Firm d₁ (Path.parts w.root))
    (hparts : Path.parts (w.destination repository) = before ++ (first :: behind).map .name ++ rest)
    (hrest : rest ≠ []) (hg : Grown d₁ before first behind above l d₂) (X : List String) :
    d₂.locate false (w.destination repository) ≠ .ok X := by
  intro hX
  obtain ⟨-, -, l', H, hway, rfl, hsome⟩ := locate_destination.1 hX
  obtain ⟨r, p, rfl⟩ := (List.eq_nil_or_concat' rest).resolve_left hrest
  rw [parts_destination, ← List.append_assoc] at hparts
  obtain ⟨hroot, -⟩ := List.append_inj' hparts rfl
  have hend := hg.way_end
  rw [hroot] at hway
  cases r with
  | nil =>
    rw [List.append_nil, hend] at hway
    obtain ⟨-, rfl⟩ : l = l' ∧ above ++ first :: behind = H := by simpa using hway
    rw [hg.end_free] at hsome
    cases hsome
  | cons p r =>
    have hsound := Path.sound_parts w.root
    rw [hroot] at hsound
    cases p with
    | name s =>
      obtain ⟨i, hi⟩ := way_free hend hg.end_empty (hsound.names s (by simp)) (hg.end_free s) r
      rw [hi] at hway
      cases hway
    | up =>
      have hdir := hfirm (before ++ (first :: behind).map .name) r first hroot (by simp)
      obtain ⟨x, hx⟩ := way_of_isDirectory hsound.front_append fun _ => hdir
      obtain ⟨i, hi⟩ := hg.way_through (behind.map .name)
      rw [List.map_cons, hi] at hx
      cases hx
    | root =>
      have := hsound.front .root (by cases before <;> simp)
      exact absurd rfl this.1
    | here =>
      have := hsound.front .here (by cases before <;> simp)
      exact absurd rfl this.2

/-- The directory is prepared, empty and new; or nothing is at the destination, and some of the
directories above may be new. -/
theorem prepare_cases (hvacated : Vacated (w.destination repository) d d₁)
    (hfirm : Firm d₁ (Path.parts w.root)) :
    (∃ before first behind above l d₂, prepare (w.destination repository) d = (.ok (), d₂) ∧
        Path.parts (w.destination repository) = before ++ (first :: behind).map .name ∧
        Grown d₁ before first behind above l d₂) ∨
      ∃ f d₂, prepare (w.destination repository) d = (.error f, d₂) ∧
        (∀ X, d₂.locate false (w.destination repository) ≠ .ok X) ∧
        (d₂ = d₁ ∨ ∃ before first behind above l rest, rest ≠ [] ∧
          Path.parts (w.destination repository) = before ++ (first :: behind).map .name ++ rest ∧
          Grown d₁ before first behind above l d₂) := by
  have hsound := Path.sound_parts (w.destination repository)
  have hfirm' : Firm d₁ (Path.parts (w.destination repository)) := by
    rw [parts_destination]
    exact hfirm.names [directoryName repository]
  have hmade : Made d₁ (Path.parts (w.destination repository))
      (d₁.makeAll (w.destination repository)) := makeParts_made hsound hfirm'
  rw [prepare_eq hvacated, ensureDirectories]
  generalize d₁.makeAll (w.destination repository) = r at hmade ⊢
  cases hmade with
  | stood hstood =>
    have hne : Path.parts (w.destination repository) ≠ [] := by simp [parts_destination]
    obtain ⟨x, hx⟩ := way_of_isDirectory hsound hstood
    obtain ⟨X, hX⟩ := locate_of_way hvacated.zeroFree hx
    exact absurd hX (vacated_missing hvacated X)
  | made hsplit hg => exact .inl ⟨_, _, _, _, _, _, rfl, hsplit, hg⟩
  | refused i => exact .inr ⟨_, _, rfl, vacated_missing hvacated, .inl rfl⟩
  | stuck i hsplit hrest hg =>
    exact .inr ⟨_, _, rfl, missing_of_stuck hfirm hsplit hrest hg,
      .inr ⟨_, _, _, _, _, _, hrest, hsplit, hg⟩⟩

end Workspace

end CodeSurvey
