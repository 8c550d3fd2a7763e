-- Which repositories have a directory of their own in the workspace, and that
-- materializing one leaves the directories with other names alone.
import CodeSurvey.Proofs.Workspace.Materializing

namespace CodeSurvey.Workspace

open Disk

variable {w : Workspace} {repository : String} {d d₁ d₂ : Disk}

/-- Filling a directory changes nothing outside of it. -/
def Confined (fetch : Command Disk Unit) (path : String) : Prop :=
  ∀ (d : Disk) (D : List String), d.locate true path = .ok D → d.root.at? D = some .empty →
    SameBut D d (fetch d).2

theorem confined_unpack (archive path : String) : Confined (unpack archive path) path := by
  intro d D hlocate hempty
  obtain ⟨l, ready⟩ := ready_of_locate hlocate hempty
  obtain ⟨m, hfilled, -, -⟩ := unpack_filled archive ready
  exact hfilled.toSameBut

/-! ## Beside one repository -/

/-- Where the root of the workspace leads to a directory, what is removed or new is at the place
of the destination there, or below it. -/
theorem above_new {before rest : List Path.Part} {first : String} {behind above H : List String}
    {l k : Nat} (hvacated : Vacated (w.destination repository) d d₁)
    (hroot : d.way (Path.parts w.root) = .ok (k, H))
    (hparts : Path.parts (w.destination repository) = before ++ (first :: behind).map .name ++ rest)
    (hg : Grown d₁ before first behind above l d₂) :
    H ++ [directoryName repository] <+: above ++ [first] := by
  have hbegin : d.begin before = d₁.begin before := by
    simp only [begin, hvacated.same]
  have hbefore : d.way before = .ok (l, above) := by
    rw [way, hbegin]
    exact (vacated_shrinks hvacated).walk hg.leads
  have hsplit : Path.parts w.root ++ [.name (directoryName repository)] =
      before ++ .name first :: (behind.map .name ++ rest) := by
    rw [← parts_destination, hparts]
    simp
  rcases List.eq_nil_or_concat' (behind.map .name ++ rest) with hnil | ⟨init, last, hlast⟩
  · rw [hnil] at hsplit
    obtain ⟨rfl, hname⟩ := List.append_inj' hsplit rfl
    obtain rfl : directoryName repository = first := by simpa using hname
    rw [hroot] at hbefore
    obtain ⟨-, rfl⟩ : k = l ∧ H = above := by simpa using hbefore
    exact List.prefix_refl _
  · -- the way to the root goes through the first new name, so that it was removed before
    rw [hlast, ← List.cons_append, ← List.append_assoc] at hsplit
    obtain ⟨hfront, -⟩ := List.append_inj' hsplit rfl
    have hstood : d.root.stands (above ++ [first]) ≠ none := by
      intro hnone
      obtain ⟨es, hdir⟩ := hg.directory
      obtain ⟨es', hdir'⟩ := (vacated_shrinks hvacated).passable.directory hdir
      obtain ⟨i, hi⟩ := way_free hbefore hdir' (hg.names first List.mem_cons_self).1
        (Node.stands_eq_none.1 hnone) init
      rw [hfront, hi] at hroot
      cases hroot
    have hfree : d₁.root.stands (above ++ [first]) = none := Node.stands_eq_none.2 hg.free
    obtain ⟨X, hX, hle⟩ := hvacated.removed (hfree.trans_ne hstood.symm)
    obtain ⟨-, -, k', H', hroot', rfl, -⟩ := locate_destination.1 hX
    rw [hroot] at hroot'
    obtain ⟨-, rfl⟩ : k = k' ∧ H = H' := by simpa using hroot'
    exact hle

/-- Bringing files to the destination changes nothing beside it. -/
theorem filled_beside {fetch : Command Disk Unit} {H : List String} {k : Nat}
    (hvacated : Vacated (w.destination repository) d d₁) (hfirm : Firm d₁ (Path.parts w.root))
    (hfetch : Confined fetch (w.destination repository))
    (hroot : d.way (Path.parts w.root) = .ok (k, H)) {q : List String}
    (hq : ¬ H ++ [directoryName repository] <+: q) :
    (((prepare (w.destination repository)).followedBy
      (fill (w.destination repository) fetch)) d).2.root.stands q = d.root.stands q := by
  have hzero := hvacated.zeroFree
  have hremoved : d₁.root.stands q = d.root.stands q := by
    by_contra hne
    obtain ⟨X, hX, hle⟩ := hvacated.removed hne
    obtain ⟨-, -, k', H', hroot', rfl, -⟩ := locate_destination.1 hX
    rw [hroot] at hroot'
    obtain ⟨-, rfl⟩ : k = k' ∧ H = H' := by simpa using hroot'
    exact hq hle
  rcases prepare_cases hvacated hfirm with
    ⟨before, first, behind, above, l, d₂, hprepare, hparts, hg⟩ | ⟨f, d₂, hprepare, -, hchange⟩
  · rw [Command.followedBy_ok hprepare]
    have hnew := above_new hvacated hroot (by rw [hparts, List.append_nil]) hg
    have hlocate : d₂.locate true (w.destination repository) = .ok (above ++ first :: behind) := by
      refine (locate_iff hg.end_empty).2 ⟨hzero, ?_, l, by rw [hparts, hg.way_end]⟩
      intro hempty
      have hparts := parts_destination w repository
      rw [hempty] at hparts
      simp at hparts
    have hbut := fill_beside hg hparts hzero (hfetch d₂ _ hlocate hg.end_empty)
    rw [old_beside hg hbut fun hle => hq (hnew.trans hle), hremoved]
  · rw [Command.followedBy_error hprepare]
    rcases hchange with rfl | ⟨before, first, behind, above, l, rest, -, hparts, hg⟩
    · exact hremoved
    · have hnew := above_new hvacated hroot hparts hg
      show d₂.root.stands q = d.root.stands q
      rw [hg.stands_old fun hle => hq (hnew.trans hle), hremoved]

/-- When what is at the destination can be neither removed nor found missing, nothing is done. -/
theorem untouched_of_refused {path : String} {next : Command Disk String}
    (h : ∀ d₁, ¬ Vacated path d d₁) : ((prepare path).followedBy next d).2 = d := by
  cases hremove : d.removeDirectory path with
  | ok d₁ => exact absurd (.inl hremove) (h d₁)
  | error i =>
    have hi : i ≠ .noEntry := by
      rintro rfl
      exact h d (.inr ⟨hremove, rfl⟩)
    have hprepare : prepare path d = (.error (.io i.message), d) := by
      rw [prepare, hremove]
      cases i <;> first | rfl | exact absurd rfl hi
    rw [Command.followedBy_error hprepare]

theorem into_beside {fetch : Command Disk Unit} {H : List String} {k : Nat}
    (hfirm : ∀ d₁, Vacated (w.destination repository) d d₁ → Firm d₁ (Path.parts w.root))
    (hfetch : Confined fetch (w.destination repository))
    (hroot : d.way (Path.parts w.root) = .ok (k, H)) {q : List String}
    (hq : ¬ H ++ [directoryName repository] <+: q) :
    (((prepare (w.destination repository)).followedBy
      (fill (w.destination repository) fetch)) d).2.root.stands q = d.root.stands q := by
  by_cases hvacated : ∃ d₁, Vacated (w.destination repository) d d₁
  · obtain ⟨d₁, hvacated⟩ := hvacated
    exact filled_beside hvacated (hfirm d₁ hvacated) hfetch hroot hq
  · rw [untouched_of_refused fun d₁ h => hvacated ⟨d₁, h⟩]

/-! ## Two repositories -/

/-- Two repositories share a directory in the workspace just when their ids give it one name,
and ids of plain characters without dots at their ends give it their own. Directories with two
names are side by side, and bringing the files of one repository to the workspace leaves all
that is at the other's directory and in it: this holds if a clone stays in the directory that it
is made for, and if two dots in the path of the workspace do not lead through something that
went with the earlier files. -/
theorem apart_of_names (w : Workspace) (a b : String) :
    (w.destination a = w.destination b ↔ directoryName a = directoryName b) ∧
    (a ≠ "" → (∀ c ∈ a.toList, isPlain c = true) → a.toList.head? ≠ some '.' →
      a.toList.getLast? ≠ some '.' → directoryName a = a) ∧
    (directoryName a ≠ directoryName b →
      ¬ Path.parts (w.destination a) <+: Path.parts (w.destination b) ∧
      ∀ (source : RepositorySource) (d : Disk) (E q : List String),
        (∀ url reference, source = .git url reference →
          Confined (w.clone url reference (w.destination a)) (w.destination a)) →
        (∀ d₁, Vacated (w.destination a) d d₁ → Firm d₁ (Path.parts w.root)) →
        d.locate false (w.destination b) = .ok E → E <+: q →
        (w.materialize a source d).2.root.stands q = d.root.stands q) := by
  refine ⟨destination_eq_iff w a b, fun hne hplain hfirst hlast =>
    directoryName_of_plain hne hplain hfirst hlast, fun hname => ⟨not_prefix_destination w hname,
    fun source d E q hclone hfirm hE hq => ?_⟩⟩
  obtain ⟨-, -, k, H, hroot, rfl, -⟩ := locate_destination.1 hE
  have hbeside : ¬ H ++ [directoryName a] <+: q := by
    intro hle
    have := List.prefix_or_prefix_of_prefix hle hq
    simp only [List.prefix_append_right_inj] at this
    rcases this with h | h
    · exact hname (by simpa using h)
    · have hback : directoryName b = directoryName a := by simpa using h
      exact hname hback.symm
  cases source with
  | directory path => rfl
  | git url reference =>
    rw [materialize_git]
    exact into_beside hfirm (hclone url reference rfl) hroot hbeside
  | archive path =>
    rw [materialize_archive]
    exact into_beside hfirm (confined_unpack path _) hroot hbeside

/-- The directories of two repositories, with a file in each. -/
def neighbours : List (String × Node) :=
  earlier ++ [("y", .directory [("kept.py", .file (.bytes .empty))])]

theorem apart_of_names_in_yard :
    (yard.materialize "x" (.archive "a.zip") (yardDisk neighbours)).2.root.stands
        ["ws", "y", "kept.py"] = (yardDisk neighbours).root.stands ["ws", "y", "kept.py"] := by
  have hx : (yardDisk neighbours).locate false (yard.destination "x") = .ok ["ws", "x"] := by
    decide +kernel
  have hy : (yardDisk neighbours).locate false (yard.destination "y") = .ok ["ws", "y"] := by
    decide +kernel
  have hdrop : { yardDisk neighbours with root := (yardDisk neighbours).root.drop ["ws", "x"] } =
      yardDisk [("y", .directory [("kept.py", .file (.bytes .empty))])] := by rfl
  have hremove := removeDirectory_directory hx (by rfl)
  rw [hdrop] at hremove
  have hfirm : ∀ d₁, Vacated (yard.destination "x") (yardDisk neighbours) d₁ →
      Firm d₁ (Path.parts yard.root) := by
    rintro d₁ (h | ⟨h, -⟩)
    · rw [hremove] at h
      obtain rfl := Except.ok.inj h
      exact firm_of_old (by decide +kernel)
    · rw [hremove] at h
      cases h
  have hnames : directoryName "x" ≠ directoryName "y" := by decide +kernel
  exact ((apart_of_names yard "x" "y").2.2 hnames).2 (.archive "a.zip") _ _ _
    (fun url reference h => by cases h) hfirm hy (by simp)

/-- A workspace on a disk with nothing but an archive. -/
def shelf : Workspace := ⟨"ws", .none⟩

def shelfDisk : Disk := ⟨.directory [("a.zip", .file (.archive (shipped ["x.py"])))], []⟩

/-- Two ids that share a directory: bringing the second repository there, even from an archive
that does not exist, takes the files of the first away. -/
theorem shared_by_two_ids :
    "a/b" ≠ "a_b" ∧ shelf.destination "a/b" = shelf.destination "a_b" ∧
    ((shelf.materialize "a_b" (.archive "a.zip") shelfDisk).2.root.stands
      ["ws", "a_b", "x.py"]).isSome = true ∧
    ((shelf.materialize "a/b" (.archive "none.zip")
      (shelf.materialize "a_b" (.archive "a.zip") shelfDisk).2).2.root.stands
      ["ws", "a_b", "x.py"]).isNone = true := by
  refine ⟨by decide, by decide +kernel, by decide +kernel, by decide +kernel⟩

end CodeSurvey.Workspace
