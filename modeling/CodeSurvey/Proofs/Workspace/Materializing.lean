-- What materializing an archive leaves behind: the tree that its entries spell and
-- nothing of an earlier run, or nothing at all; and what else on the disk may change.
import CodeSurvey.Proofs.Workspace.Preparing

namespace CodeSurvey.Workspace

open Disk
open CodeSurvey.Path (IsName Sound ZeroFree)

variable {w : Workspace} {repository archive : String} {d d₁ d₂ d' : Disk}

/-! ## Beside the destination -/

section

variable {before : List Path.Part} {first : String} {behind above : List String} {l : Nat}

/-- What stood before the chain was made stands whatever becomes of the end of the chain. -/
theorem extends_beside (hg : Grown d₁ before first behind above l d₂)
    (hbut : SameBut (above ++ first :: behind) d₂ d') : Extends d₁.root d'.root := by
  intro q b hb
  have hnew : ¬ above ++ [first] <+: q := by
    rintro ⟨rest, rfl⟩
    rw [List.append_assoc, List.singleton_append, hg.nothing] at hb
    cases hb
  have hend : ¬ above ++ first :: behind <+: q := by
    intro h
    exact hnew (List.IsPrefix.trans (by simp) h)
  rw [hbut.outside q hend, hg.stands_old hnew, hb]

theorem same_beside (hg : Grown d₁ before first behind above l d₂)
    (hbut : SameBut (above ++ first :: behind) d₂ d') :
    d'.workingDirectory = d₁.workingDirectory := hbut.same.trans hg.workingDirectory

/-- The new directories above the end of the chain stand. -/
theorem stands_beside (hg : Grown d₁ before first behind above l d₂)
    (hbut : SameBut (above ++ first :: behind) d₂ d') {j : List String} (hj : j <+: behind)
    (hne : j ≠ behind) : d'.root.stands (above ++ first :: j) = some .empty := by
  have hend : ¬ above ++ first :: behind <+: above ++ first :: j := by
    rw [List.prefix_append_right_inj, List.prefix_cons_inj]
    exact fun h => hne (hj.eq_of_length_le h.length_le)
  rw [hbut.outside _ hend, hg.stands_new, if_pos hj]

theorem way_beside (hg : Grown d₁ before first behind above l d₂)
    (hbut : SameBut (above ++ first :: behind) d₂ d') {r : List String} (hr : r <+: behind)
    (hne : r ≠ behind) :
    d'.way (before ++ (first :: r).map .name) = .ok (l, above ++ first :: r) := by
  refine way_along (extends_beside hg hbut) (same_beside hg hbut) hg.leads (fun s hs => ?_)
    (fun j hj => stands_beside hg hbut (hj.trans hr) ?_)
  · exact hg.names s (List.Sublist.subset (List.Sublist.cons_cons first hr.sublist) hs)
  · rintro rfl
    exact hne (hr.eq_of_length_le hj.length_le)

/-- The root of the workspace leads to where the destination was made. -/
theorem root_beside (hg : Grown d₁ before first behind above l d₂)
    (hbut : SameBut (above ++ first :: behind) d₂ d')
    (hparts : Path.parts (w.destination repository) = before ++ (first :: behind).map .name) :
    ∃ H, above ++ first :: behind = H ++ [directoryName repository] ∧
      d'.way (Path.parts w.root) = .ok (l, H) ∧ Fits (directoryName repository) := by
  rw [parts_destination] at hparts
  rcases List.eq_nil_or_concat' behind with rfl | ⟨init, last, rfl⟩
  · obtain ⟨rfl, hlast⟩ := List.append_inj' hparts rfl
    obtain rfl : directoryName repository = first := by simpa using hlast
    have hbegin : d'.begin (Path.parts w.root) = d₁.begin (Path.parts w.root) := by
      simp only [begin, same_beside hg hbut]
    refine ⟨above, rfl, ?_, (hg.names _ List.mem_cons_self).2⟩
    rw [way, hbegin]
    exact (extends_beside hg hbut).walk hg.leads
  · have hsplit : before ++ (first :: (init ++ [last])).map .name =
        before ++ (first :: init).map .name ++ [Path.Part.name last] := by simp
    rw [hsplit] at hparts
    obtain ⟨hroot, hlast⟩ := List.append_inj' hparts rfl
    obtain rfl : directoryName repository = last := by simpa using hlast
    refine ⟨above ++ first :: init, by simp, ?_, (hg.names _ (by simp)).2⟩
    rw [hroot]
    exact way_beside hg hbut (by simp) (by simp)

/-- What is at the destination is what is at the end of the chain. -/
theorem locate_beside (hg : Grown d₁ before first behind above l d₂)
    (hbut : SameBut (above ++ first :: behind) d₂ d')
    (hparts : Path.parts (w.destination repository) = before ++ (first :: behind).map .name)
    (hzero : ZeroFree (w.destination repository)) {X : List String} :
    d'.locate false (w.destination repository) = .ok X ↔
      X = above ++ first :: behind ∧ (d'.root.at? X).isSome := by
  obtain ⟨H, hend, hway, hfits⟩ := root_beside hg hbut hparts
  rw [locate_destination, hend, hway]
  constructor
  · rintro ⟨-, -, l', H', hway', rfl, hsome⟩
    obtain ⟨-, rfl⟩ : l = l' ∧ H = H' := by simpa using hway'
    exact ⟨rfl, hsome⟩
  · rintro ⟨rfl, hsome⟩
    exact ⟨hzero, hfits, l, H, rfl, rfl, hsome⟩

/-- Filling the new directory changes nothing else, if what it is filled with does not. -/
theorem fill_beside (hg : Grown d₁ before first behind above l d₂)
    (hparts : Path.parts (w.destination repository) = before ++ (first :: behind).map .name)
    (hzero : ZeroFree (w.destination repository)) {fetch : Command Disk Unit}
    (hfetch : SameBut (above ++ first :: behind) d₂ (fetch d₂).2) :
    SameBut (above ++ first :: behind) d₂ (fill (w.destination repository) fetch d₂).2 := by
  unfold fill
  rcases hrun : fetch d₂ with ⟨r, d₃⟩
  rw [hrun] at hfetch
  cases r with
  | ok _ => exact hfetch
  | error f =>
    dsimp only
    cases hremove : d₃.removeDirectory (w.destination repository) with
    | error i => exact hfetch
    | ok d₄ =>
      obtain ⟨X, hX, rfl⟩ := removeDirectory_ok hremove
      obtain ⟨rfl, -⟩ := (locate_beside hg hfetch hparts hzero).1 hX
      refine ⟨hfetch.same, fun q hq => ?_⟩
      rw [← hfetch.outside q hq]
      exact Node.stands_drop _ hq

/-- When filling fails the directory is gone, and so is what was written. -/
theorem fill_undone (hg : Grown d₁ before first behind above l d₂)
    (hparts : Path.parts (w.destination repository) = before ++ (first :: behind).map .name)
    (hzero : ZeroFree (w.destination repository)) {fetch : Command Disk Unit}
    (hfetch : SameBut (above ++ first :: behind) d₂ (fetch d₂).2)
    (hdir : ∃ es, (fetch d₂).2.root.at? (above ++ first :: behind) = some (.directory es))
    {f : Failure} (hf : (fill (w.destination repository) fetch d₂).1 = .error f) :
    (∀ X, (fill (w.destination repository) fetch d₂).2.locate false (w.destination repository) ≠
        .ok X) ∧
      ∀ q, (fill (w.destination repository) fetch d₂).2.root.stands
        (above ++ first :: behind ++ q) = none := by
  unfold fill at hf ⊢
  rcases hrun : fetch d₂ with ⟨r, d₃⟩
  rw [hrun] at hfetch hdir hf
  cases r with
  | ok _ => cases hf
  | error g =>
    obtain ⟨es, hdir⟩ := hdir
    have hlocate : d₃.locate false (w.destination repository) = .ok (above ++ first :: behind) :=
      (locate_beside hg hfetch hparts hzero).2 ⟨rfl, by rw [hdir]; rfl⟩
    have hremove := removeDirectory_directory hlocate hdir
    dsimp only
    rw [hremove]
    refine ⟨vacated_missing (.inl hremove), fun q => ?_⟩
    rw [Node.stands_eq_none]
    exact Node.at?_drop _ (by simp) q

end

/-! ## Archives -/

theorem materialize_archive (w : Workspace) (repository archive : String) (d : Disk) :
    w.materialize repository (.archive archive) d =
      ((prepare (w.destination repository)).followedBy
        (fill (w.destination repository) (unpack archive (w.destination repository)))) d := rfl

theorem materialize_git (w : Workspace) (repository url : String) (reference : Option String)
    (d : Disk) : w.materialize repository (.git url reference) d =
      ((prepare (w.destination repository)).followedBy
        (fill (w.destination repository) (w.clone url reference (w.destination repository)))) d :=
  rfl

/-- An archive is read where its path leads to a file that is one. -/
theorem archiveAt_iff {entries : List ArchiveEntry} : archiveAt archive d = .ok entries ↔
    ∃ X, d.locate true archive = .ok X ∧ d.root.stands X = some (.file (.archive entries)) := by
  unfold archiveAt node
  cases d.locate true archive with
  | error i => simp [bind, Except.bind]
  | ok X =>
    cases hX : d.root.at? X with
    | none => simp [bind, Except.bind, throw, throwThe, MonadExceptOf.throw, Node.stands, hX]
    | some n =>
      rcases n with c | target | es
      · cases c <;> simp [bind, Except.bind, pure, Except.pure, Node.stands, hX]
      · simp [bind, Except.bind, pure, Except.pure, Node.stands, hX]
      · simp [bind, Except.bind, pure, Except.pure, Node.stands, Node.empty, hX]

/-- The archive at a path is the same when more stands on the disk. -/
theorem archiveAt_of_extends {entries : List ArchiveEntry} (hkeeps : Extends d.root d'.root)
    (hsame : d'.workingDirectory = d.workingDirectory) (h : archiveAt archive d = .ok entries) :
    archiveAt archive d' = .ok entries := by
  obtain ⟨X, hX, hfile⟩ := archiveAt_iff.1 h
  exact archiveAt_iff.2 ⟨X, hkeeps.locate hsame hX, hkeeps X _ hfile⟩

/-! ## What is different afterwards -/

section

variable {before : List Path.Part} {first : String} {behind above : List String} {l : Nat}

/-- A path to one of the new directories leads there. -/
theorem locate_new {r : List String} {b : List Path.Part}
    (hg : Grown d₁ before first behind above l d₂) (hkeeps : Extends d₁.root d'.root)
    (hsame : d'.workingDirectory = d₁.workingDirectory) (hr : r <+: behind)
    (hstands : ∀ j, j <+: r → d'.root.stands (above ++ first :: j) = some .empty)
    {path : String} (hzero : ZeroFree path)
    (hparts : Path.parts path = before ++ (first :: r).map .name ++ b) :
    d'.locate true (Path.ofParts (before ++ (first :: r).map .name)) =
      .ok (above ++ first :: r) := by
  have hsound : Sound (before ++ (first :: r).map .name) := by
    have := Path.sound_parts path
    rw [hparts] at this
    exact this.front_append
  obtain ⟨es, hdir⟩ := Node.directory_of_stands (hstands r (List.prefix_refl _))
  have hway := way_along hkeeps hsame hg.leads
    (fun s hs => hg.names s ((List.prefix_cons_inj first |>.2 hr).subset hs)) hstands
  refine (locate_iff hdir).2 ⟨Path.zeroFree_ofParts fun s hs => hzero.names ?_,
    Path.ofParts_ne_empty hsound (by simp), l, by rw [Path.parts_ofParts hsound, hway]⟩
  rw [hparts]
  exact List.mem_append_left _ hs

/-- A place that is different was removed, or it is new, at the chain or below. -/
theorem removed_or_new {path : String} (hvacated : Vacated path d d₁)
    (hg : Grown d₁ before first behind above l d₂)
    (hold : ∀ q, ¬ above ++ [first] <+: q → d'.root.stands q = d₁.root.stands q) {q : List String}
    (hq : d'.root.stands q ≠ d.root.stands q) :
    (∃ D, d.locate false path = .ok D ∧ D <+: q) ∨
      d.root.at? q = none ∧ d'.root.stands q ≠ none ∧ ∃ r, q = above ++ first :: r := by
  by_cases hsame : d₁.root.stands q = d.root.stands q
  · by_cases hnew : above ++ [first] <+: q
    · obtain ⟨r, rfl⟩ := hnew
      rw [List.append_assoc, List.singleton_append] at hq hsame ⊢
      rw [hg.nothing] at hsame
      rw [← hsame] at hq
      exact .inr ⟨Node.stands_eq_none.1 hsame.symm, hq, r, rfl⟩
    · exact absurd ((hold q hnew).trans hsame) hq
  · exact .inl (hvacated.removed hsame)

theorem old_beside (hg : Grown d₁ before first behind above l d₂)
    (hbut : SameBut (above ++ first :: behind) d₂ d') {q : List String}
    (hq : ¬ above ++ [first] <+: q) : d'.root.stands q = d₁.root.stands q := by
  have hend : ¬ above ++ first :: behind <+: q := fun h => hq (List.IsPrefix.trans (by simp) h)
  rw [hbut.outside q hend, hg.stands_old hq]

/-- When no directory could be made in the end, only directories above it are new. -/
theorem changed_of_stuck {path : String} {rest : List Path.Part} (hvacated : Vacated path d d₁)
    (hparts : Path.parts path = before ++ (first :: behind).map .name ++ rest) (hrest : rest ≠ [])
    (hg : Grown d₁ before first behind above l d₂) {q : List String}
    (hq : d₂.root.stands q ≠ d.root.stands q) :
    (∃ D, d.locate false path = .ok D ∧ D <+: q) ∨
      d.root.at? q = none ∧ d₂.root.stands q = some .empty ∧
        ∃ a b, Path.parts path = a ++ b ∧ b ≠ [] ∧ d₂.locate true (Path.ofParts a) = .ok q := by
  rcases removed_or_new hvacated hg (fun q hq => hg.stands_old hq) hq with
    hgone | ⟨hnone, hsome, r, rfl⟩
  · exact .inl hgone
  · have hr : r <+: behind := by
      by_contra hr
      rw [hg.stands_new, if_neg hr] at hsome
      exact hsome rfl
    have hstands : ∀ j, j <+: r → d₂.root.stands (above ++ first :: j) = some .empty := by
      intro j hj
      rw [hg.stands_new, if_pos (hj.trans hr)]
    obtain ⟨more, rfl⟩ := hr
    have hsplit : Path.parts path =
        before ++ (first :: r).map .name ++ (more.map .name ++ rest) := by
      rw [hparts]
      simp
    exact .inr ⟨hnone, hstands r (List.prefix_refl r), _, _, hsplit, by simp [hrest],
      locate_new hg hg.keeps hg.workingDirectory (by simp) hstands hvacated.zeroFree hsplit⟩

/-- When the directory was made, there are differences in it and the directories above it that
are new. -/
theorem changed_of_made (hvacated : Vacated (w.destination repository) d d₁)
    (hparts : Path.parts (w.destination repository) = before ++ (first :: behind).map .name)
    (hg : Grown d₁ before first behind above l d₂)
    (hbut : SameBut (above ++ first :: behind) d₂ d') {q : List String}
    (hq : d'.root.stands q ≠ d.root.stands q) :
    (∃ D, d.locate false (w.destination repository) = .ok D ∧ D <+: q) ∨
      above ++ first :: behind <+: q ∧ d'.root.stands q ≠ none ∨
      d.root.at? q = none ∧ d'.root.stands q = some .empty ∧
        ∃ a b, Path.parts (w.destination repository) = a ++ b ∧ b ≠ [] ∧
          d'.locate true (Path.ofParts a) = .ok q := by
  rcases removed_or_new hvacated hg (fun q hq => old_beside hg hbut hq) hq with
    hgone | ⟨hnone, hsome, r, rfl⟩
  · exact .inl hgone
  · by_cases hend : above ++ first :: behind <+: above ++ first :: r
    · exact .inr (.inl ⟨hend, hsome⟩)
    · have hr : r <+: behind := by
        by_contra hr
        rw [hbut.outside _ hend, hg.stands_new, if_neg hr] at hsome
        exact hsome rfl
      have hne : r ≠ behind := by
        rintro rfl
        exact hend (List.prefix_refl _)
      have hstands : ∀ j, j <+: r → d'.root.stands (above ++ first :: j) = some .empty := by
        intro j hj
        refine stands_beside hg hbut (hj.trans hr) ?_
        rintro rfl
        exact hne (hr.eq_of_length_le hj.length_le)
      obtain ⟨more, rfl⟩ := hr
      have hmore : more ≠ [] := by
        rintro rfl
        exact hne (by simp)
      have hsplit : Path.parts (w.destination repository) =
          before ++ (first :: r).map .name ++ more.map .name := by
        rw [hparts]
        simp
      exact .inr (.inr ⟨hnone, hstands r (List.prefix_refl r), _, _, hsplit, by simpa using hmore,
        locate_new hg (extends_beside hg hbut) (same_beside hg hbut) (by simp) hstands
          hvacated.zeroFree hsplit⟩)

end

/-- Materializing an archive replaces what was there, or leaves nothing. Here the place of the
destination could be cleared, and two dots in the path of the workspace do not lead through
something that went with it. Then the destination is the root of the workspace with one name
behind it, and

* whatever is different afterwards was at the destination or is at it now, but for directories
  above it that were missing;
* after a success the destination holds what the entries of the archive lay, one after another
  from an empty directory on, and nothing else;
* after a failure nothing is at the destination. -/
theorem materialized_or_nothing {result : Except Failure String}
    (hvacated : Vacated (w.destination repository) d d₁)
    (hfirm : Firm d₁ (Path.parts w.root))
    (hrun : w.materialize repository (.archive archive) d = (result, d')) :
    (∃ name, IsName name ∧ w.destination repository = Path.join w.root name ∧
      Path.parts (w.destination repository) = Path.parts w.root ++ [.name name]) ∧
    (∀ q, d'.root.stands q ≠ d.root.stands q →
      (∃ D, d.locate false (w.destination repository) = .ok D ∧ D <+: q) ∨
      (∃ D, d'.locate false (w.destination repository) = .ok D ∧ D <+: q) ∨
      d.root.at? q = none ∧ d'.root.stands q = some .empty ∧
        ∃ a b, Path.parts (w.destination repository) = a ++ b ∧ b ≠ [] ∧
          d'.locate true (Path.ofParts a) = .ok q) ∧
    (∀ p, result = .ok p → p = w.destination repository ∧ ∃ entries placed D,
      archiveAt archive (prepare p d).2 = .ok entries ∧
      (∀ es, archiveAt archive d₁ = .ok es → archiveAt archive d = .ok es ∧ es = entries) ∧
      plan entries = .ok placed ∧ d'.locate false p = .ok D ∧
      ∀ q, d'.root.stands (D ++ q) = layout placed q) ∧
    (∀ f, result = .error f → ∀ D, d'.locate false (w.destination repository) ≠ .ok D) := by
  refine ⟨⟨directoryName repository, isName_directoryName repository, rfl,
    parts_destination w repository⟩, ?_⟩
  have hzero := hvacated.zeroFree
  rw [materialize_archive] at hrun
  rcases prepare_cases hvacated hfirm with
    ⟨before, first, behind, above, l, d₂, hprepare, hparts, hg⟩ |
    ⟨f, d₂, hprepare, hmissing, hchange⟩
  · -- the directory was prepared and is filled
    rw [Command.followedBy_ok hprepare] at hrun
    have ready : Ready d₂ (w.destination repository) l (above ++ first :: behind) :=
      ⟨by rw [hparts, hg.way_end], hzero, hg.end_empty⟩
    obtain ⟨m, hfilled, htidy, hok⟩ := unpack_filled archive ready
    have hbut := fill_beside hg hparts hzero hfilled.toSameBut
    have hundone := @fill_undone _ _ _ _ _ _ _ _ _ hg hparts hzero _ hfilled.toSameBut
      (hfilled.directory htidy)
    rw [hrun] at hbut hundone
    unfold fill at hrun
    rcases hr : unpack archive (w.destination repository) d₂ with ⟨r, d₃⟩
    rw [hr] at hrun hfilled hok
    cases r with
    | ok _ =>
      obtain ⟨rfl, rfl⟩ : Except.ok (w.destination repository) = result ∧ d₃ = d' := by
        simpa using hrun
      have hlocate : d₃.locate false (w.destination repository) = .ok (above ++ first :: behind) :=
        (locate_beside hg hbut hparts hzero).2 ⟨rfl, by
          obtain ⟨es, hdir⟩ := hfilled.directory htidy
          rw [hdir]
          rfl⟩
      refine ⟨fun q hq => ?_, fun p hp => ?_, fun f hf => by cases hf⟩
      · rcases changed_of_made hvacated hparts hg hbut hq with hgone | ⟨hend, -⟩ | hnew
        · exact .inl hgone
        · exact .inr (.inl ⟨_, hlocate, hend⟩)
        · exact .inr (.inr hnew)
      · obtain rfl := Except.ok.inj hp
        obtain ⟨entries, placed, hread, hplan, rfl⟩ := hok rfl
        refine ⟨rfl, entries, placed, _, by rw [hprepare]; exact hread, fun es hes => ⟨?_, ?_⟩,
          hplan, hlocate, hfilled.inside⟩
        · exact archiveAt_of_extends (vacated_shrinks hvacated) hvacated.same.symm hes
        · have := archiveAt_of_extends hg.keeps hg.workingDirectory hes
          rw [hread] at this
          exact (Except.ok.inj this).symm
    | error f =>
      obtain ⟨rfl, -⟩ : Except.error f = result ∧ _ := by simpa using hrun
      obtain ⟨hmissing, hnothing⟩ := hundone rfl
      refine ⟨fun q hq => ?_, (fun p hp => by cases hp), fun g _ => hmissing⟩
      rcases changed_of_made hvacated hparts hg hbut hq with hgone | ⟨⟨rest, rfl⟩, hsome⟩ | hnew
      · exact .inl hgone
      · exact absurd (hnothing rest) hsome
      · exact .inr (.inr hnew)
  · -- the directory could not be prepared
    rw [Command.followedBy_error hprepare] at hrun
    obtain ⟨rfl, rfl⟩ : Except.error f = result ∧ d₂ = d' := by simpa using hrun
    refine ⟨fun q hq => ?_, fun p hp => ?_, fun g _ => hmissing⟩
    · rcases hchange with rfl | ⟨before, first, behind, above, l, rest, hrest, hparts, hg⟩
      · exact .inl (hvacated.removed hq)
      · rcases changed_of_stuck hvacated hparts hrest hg hq with hgone | hnew
        · exact .inl hgone
        · exact .inr (.inr hnew)
    · cases hp

/-- A workspace whose path goes back out of a directory, and a disk with an earlier run in it. -/
def yard : Workspace := ⟨"old/../ws", .none⟩

def yardDisk (run : List (String × Node)) : Disk :=
  ⟨.directory [("a.zip", .file (.archive (shipped ["new.py"]))), ("old", .empty),
    ("ws", .directory run)], []⟩

/-- What an earlier run left: a directory with one file. -/
def earlier : List (String × Node) := [("x", .directory [("old.py", .file (.bytes .empty))])]

theorem firm_of_old (h : d.isDirectory "old" = true) : Firm d (Path.parts yard.root) := by
  have hparts : Path.parts yard.root = [.name "old", .up, .name "ws"] := by decide +kernel
  rw [hparts]
  intro a b s hsplit _
  match a, hsplit with
  | [_], hsplit =>
    obtain ⟨rfl, -⟩ := List.cons.inj hsplit
    exact h
  | [_, _], hsplit => simp at hsplit
  | [], hsplit => simp at hsplit
  | _ :: _ :: _ :: _, hsplit => simp at hsplit

theorem materialized_or_nothing_of_yard :
    ∃ D, (yard.materialize "x" (.archive "a.zip") (yardDisk earlier)).2.locate false
        (yard.destination "x") = .ok D ∧
      ∀ q, (yard.materialize "x" (.archive "a.zip") (yardDisk earlier)).2.root.stands (D ++ q) =
        layout ((shipped ["new.py"]).map ArchiveEntry.placed) q := by
  have hlocate : (yardDisk earlier).locate false (yard.destination "x") = .ok ["ws", "x"] := by
    decide +kernel
  have hdrop : { yardDisk earlier with root := (yardDisk earlier).root.drop ["ws", "x"] } =
      yardDisk [] := by rfl
  have hvacated : Vacated (yard.destination "x") (yardDisk earlier) (yardDisk []) :=
    .inl (hdrop ▸ removeDirectory_directory hlocate (by rfl))
  have hread : archiveAt "a.zip" (yardDisk []) = .ok (shipped ["new.py"]) :=
    archiveAt_iff.2 ⟨["a.zip"], by decide +kernel, by rfl⟩
  have hfirm := firm_of_old (d := yardDisk []) (by decide +kernel)
  have hok : (yard.materialize "x" (.archive "a.zip") (yardDisk earlier)).1.isOk = true := by
    decide +kernel
  have hsafe : ∀ e ∈ shipped ["new.py"], ¬ e.Unsafe := by
    simp only [shipped, ArchiveEntry.Unsafe, List.forall_mem_map]
    decide +kernel
  obtain ⟨p, hp⟩ := exists_ok hok
  obtain ⟨-, -, hfilled, -⟩ := materialized_or_nothing hvacated hfirm (Prod.eta _).symm
  obtain ⟨rfl, entries, placed, D, -, hsame, hplan, hlocate, hstands⟩ := hfilled p hp
  obtain ⟨-, rfl⟩ := hsame _ hread
  rw [plan_safe hsafe] at hplan
  obtain rfl := Except.ok.inj hplan
  exact ⟨D, hlocate, hstands⟩

/-- A disk where the way of the workspace leads through a link in the directory of `x`, and back
out of where that leads. -/
def looped : Disk :=
  ⟨.directory [("a.zip", .file (.archive (shipped ["new.py"]))),
    ("w", .directory [("x", .directory [("s", .link "../y/z/zz")]),
      ("y", .directory [("z", .directory [("zz", .empty)])])]),
    ("x", .directory [("old.py", .file (.bytes .empty))])], []⟩

def loop : Workspace := ⟨"w/x/s/../../..", .none⟩

/-- The removal takes the link with it, so that the path leads elsewhere when the directory is
made. What is there already stays, and the archive is unpacked beside it. -/
theorem not_replaced_behind_link :
    (looped.removeDirectory (loop.destination "x")).isOk = true ∧
    archiveAt "a.zip" looped = .ok (shipped ["new.py"]) ∧
    plan (shipped ["new.py"]) = .ok ((shipped ["new.py"]).map ArchiveEntry.placed) ∧
    (loop.materialize "x" (.archive "a.zip") looped).1.toOption = some (loop.destination "x") ∧
    (loop.materialize "x" (.archive "a.zip") looped).2.locate false (loop.destination "x") =
      .ok ["x"] ∧
    (loop.materialize "x" (.archive "a.zip") looped).2.root.stands (["x"] ++ ["old.py"]) ≠
      layout ((shipped ["new.py"]).map ArchiveEntry.placed) ["old.py"] := by
  have hsafe : ∀ e ∈ shipped ["new.py"], ¬ e.Unsafe := by
    simp only [shipped, ArchiveEntry.Unsafe, List.forall_mem_map]
    decide +kernel
  have hold : ((loop.materialize "x" (.archive "a.zip") looped).2.root.stands
      (["x"] ++ ["old.py"])).isSome = true := by decide +kernel
  have hnew : (layout ((shipped ["new.py"]).map ArchiveEntry.placed) ["old.py"]).isSome =
      false := by decide +kernel
  refine ⟨by decide +kernel, archiveAt_iff.2 ⟨["a.zip"], by decide +kernel, by rfl⟩,
    plan_safe hsafe, by decide +kernel, by decide +kernel, fun h => ?_⟩
  rw [h, hnew] at hold
  cases hold

end CodeSurvey.Workspace
