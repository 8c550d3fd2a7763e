-- How directories are made: a directory with those above it that are missing comes
-- as one chain of new directories, put at the first name that is free, or not at
-- all. Nothing that stands is touched.
import CodeSurvey.Disk.Archive
import CodeSurvey.Proofs.Disk.Way

namespace CodeSurvey.Disk

open CodeSurvey.Path (IsName Sound ZeroFree)

/-! ## Names below a directory -/

/-- The name is short enough for a disk. -/
def Fits (name : String) : Prop := name.utf8ByteSize ≤ longestName

variable {root : Node} {links : Nat} {here : List String} {name : String}
  {es : List (String × Node)}

/-- No way goes on through a name that is free. -/
theorem way_free {d : Disk} {before : List Path.Part} {l : Nat} {above : List String}
    (hleads : d.way before = .ok (l, above)) (hdir : d.root.at? above = some (.directory es))
    (hname : IsName name) (hfree : d.root.at? (above ++ [name]) = none) (rest : List Path.Part) :
    ∃ i, d.way (before ++ .name name :: rest) = .error i := by
  rw [way_append (by simp), hleads]
  show ∃ i, walk d.root l above (name :: Path.steps rest) = .error i
  rw [walk_cons, turn_name hdir hname.moves hname.2.2.1, hfree]
  split
  · exact ⟨_, rfl⟩
  · exact ⟨_, rfl⟩

theorem turn_onto (hdir : root.at? here = some (.directory es)) (hname : IsName name)
    (hfits : Fits name) {x : Node} (hx : root.at? (here ++ [name]) = some x)
    (hlink : ∀ target, x ≠ .link target) :
    turn root links here name = .ok ⟨links, here ++ [name], []⟩ := by
  rw [turn_name hdir hname.moves hname.2.2.1, if_neg (Nat.not_lt.2 hfits), hx]
  cases x with
  | link target => exact absurd rfl (hlink target)
  | _ => rfl

/-- Names lead to where they spell, if no link stands on the way. -/
theorem walk_names {names : List String} {x : Node} (hnames : ∀ s ∈ names, IsName s ∧ Fits s)
    (hlinks : ∀ ks, ks ≠ [] → ks <+: names → ∀ target, root.at? (here ++ ks) ≠ some (.link target))
    (hx : root.at? (here ++ names) = some x) :
    walk root links here names = .ok (links, here ++ names) := by
  induction names generalizing here with
  | nil => simp
  | cons s names ih =>
    obtain ⟨es, hdir⟩ := Node.directory_above hx
    have hx' : root.at? (here ++ [s] ++ names) = some x := by simpa using hx
    obtain ⟨y, hy⟩ : ∃ y, root.at? (here ++ [s]) = some y := by
      rw [Node.at?_append] at hx'
      obtain ⟨y, hy, -⟩ := Option.bind_eq_some_iff.1 hx'
      exact ⟨y, hy⟩
    have hlink : ∀ target, y ≠ .link target := by
      rintro target rfl
      exact hlinks [s] (by simp) (by simp) target hy
    obtain ⟨hname, hfits⟩ := hnames s List.mem_cons_self
    have hrest : walk root links (here ++ [s]) names = .ok (links, here ++ [s] ++ names) := by
      refine ih (fun t ht => hnames t (List.mem_cons_of_mem _ ht)) ?_ hx'
      intro ks hks hle target
      have := hlinks (s :: ks) (by simp) (List.prefix_cons_inj s |>.2 hle) target
      simpa using this
    rw [walk_cons, turn_onto hdir hname hfits hy hlink]
    simpa [Except.bind] using hrest

/-! ## Chains -/

/-- A directory in a directory and so on, for a row of names. -/
def chain : List String → Node
  | [] => .empty
  | name :: rest => .directory [(name, chain rest)]

/-- In a chain only its own names stand, and they are directories. -/
theorem stands_chain (names q : List String) :
    (chain names).stands q = if q <+: names then some .empty else none := by
  induction names generalizing q with
  | nil => cases q <;> simp [chain, Node.stands, Node.empty, Node.child?]
  | cons s names ih =>
    cases q with
    | nil => simp [Node.stands, chain, Node.empty]
    | cons k q =>
      by_cases hk : s = k
      · subst hk
        simpa [Node.stands, chain, Node.child?, List.prefix_cons_inj] using ih q
      · have : ¬ k :: q <+: s :: names := fun h => hk (List.cons_prefix_cons.1 h).1.symm
        simp [Node.stands, chain, Node.child?, hk, this]

theorem at?_chain (names : List String) : (chain names).at? names = some .empty := by
  induction names with
  | nil => simp [chain]
  | cons s names ih => simpa [chain, Node.child?] using ih

/-- A chain grows at its end. -/
theorem chain_put (names : List String) (name : String) :
    (chain names).put .empty (names ++ [name]) = chain (names ++ [name]) := by
  induction names with
  | nil => exact Node.put_name _ _ _
  | cons s names ih =>
    rw [List.cons_append, chain, Node.put_below _ (by simp)]
    simp [Node.child?, Node.putEntry, ih, chain]

/-- Where directories stand behind a way, the way leads on through them. -/
theorem way_along {d d' : Disk} {before : List Path.Part} {first : String}
    {behind above : List String} (hkeeps : Extends d.root d'.root)
    (hsame : d'.workingDirectory = d.workingDirectory) (hleads : d.way before = .ok (links, above))
    (hnames : ∀ s ∈ first :: behind, IsName s ∧ Fits s)
    (hstands : ∀ j, j <+: behind → d'.root.stands (above ++ first :: j) = some .empty) :
    d'.way (before ++ (first :: behind).map .name) = .ok (links, above ++ first :: behind) := by
  have hbefore : d'.way before = .ok (links, above) := by
    have hbegin : d'.begin before = d.begin before := by
      simp only [begin, hsame]
    rw [way, hbegin]
    exact hkeeps.walk hleads
  obtain ⟨es, hend⟩ := Node.directory_of_stands (hstands behind (List.prefix_refl _))
  have hnames' : Disk.walk d'.root links above (first :: behind) =
      .ok (links, above ++ first :: behind) := by
    refine walk_names hnames (fun ks hks hle target hlink => ?_) hend
    obtain ⟨s, rest, rfl⟩ := List.exists_cons_of_ne_nil hks
    obtain ⟨rfl, hrest⟩ := List.cons_prefix_cons.1 hle
    have := hstands rest hrest
    rw [Node.stands, hlink] at this
    simp [Node.empty] at this
  rw [way_names, hbefore]
  exact hnames'

/-- Behind the parts `before` the name `first` was free; now it is a directory and the names
`behind` are a row of directories in it. Nothing else is new. -/
structure Grown (d : Disk) (before : List Path.Part) (first : String) (behind : List String)
    (above : List String) (links : Nat) (d' : Disk) : Prop where
  leads : d.way before = .ok (links, above)
  directory : ∃ es, d.root.at? above = some (.directory es)
  free : d.root.at? (above ++ [first]) = none
  names : ∀ s ∈ first :: behind, IsName s ∧ Fits s
  grown : d' = d.put (chain behind) (above ++ [first])

namespace Grown

variable {d d' : Disk} {before : List Path.Part} {first : String} {behind above : List String}

/-- What stands on the grown disk. -/
theorem stands_new (h : Grown d before first behind above links d') (q : List String) :
    d'.root.stands (above ++ first :: q) = if q <+: behind then some .empty else none := by
  obtain ⟨es, hdir⟩ := h.directory
  rw [h.grown, put, Node.stands, Node.at?_put _ hdir]
  exact stands_chain behind q

theorem stands_old (h : Grown d before first behind above links d') {q : List String}
    (hq : ¬ above ++ [first] <+: q) : d'.root.stands q = d.root.stands q := by
  rw [h.grown, put, Node.stands_put _ _ hq]

theorem nothing (h : Grown d before first behind above links d') (q : List String) :
    d.root.stands (above ++ first :: q) = none := by
  have : above ++ first :: q = above ++ [first] ++ q := by simp
  rw [Node.stands_eq_none, this, Node.at?_append, h.free]
  rfl

theorem keeps (h : Grown d before first behind above links d') : Extends d.root d'.root := by
  rw [h.grown]
  exact .put _ h.free

theorem workingDirectory (h : Grown d before first behind above links d') :
    d'.workingDirectory = d.workingDirectory := by
  rw [h.grown]
  rfl

theorem end_empty (h : Grown d before first behind above links d') :
    d'.root.at? (above ++ first :: behind) = some .empty := by
  obtain ⟨es, hdir⟩ := h.directory
  rw [h.grown, put, Node.at?_put _ hdir]
  exact at?_chain behind

/-- The way that led to the free name leads to the end of the chain. -/
theorem way_end (h : Grown d before first behind above links d') :
    d'.way (before ++ (first :: behind).map .name) = .ok (links, above ++ first :: behind) :=
  way_along h.keeps h.workingDirectory h.leads h.names fun j hj => by
    rw [h.stands_new, if_pos hj]

/-- The first name was free, so that the way through it led nowhere. -/
theorem way_through (h : Grown d before first behind above links d') (rest : List Path.Part) :
    ∃ i, d.way (before ++ .name first :: rest) = .error i := by
  obtain ⟨es, hdir⟩ := h.directory
  exact way_free h.leads hdir (h.names first List.mem_cons_self).1 h.free rest

/-- At the end of the chain there is nothing yet, so that one more directory makes it longer. -/
theorem snoc (h : Grown d before first behind above links d') {name : String}
    (hname : IsName name) (hfits : Fits name) :
    Grown d before first (behind ++ [name]) above links
      (d'.put .empty (above ++ first :: behind ++ [name])) := by
  refine ⟨h.leads, h.directory, h.free, ?_, ?_⟩
  · intro s hs
    rcases List.mem_append.1 (List.cons_append ▸ hs) with hs | hs
    · exact h.names s hs
    · obtain rfl := List.mem_singleton.1 hs
      exact ⟨hname, hfits⟩
  · obtain ⟨es, hdir⟩ := h.directory
    have hplace : above ++ first :: behind ++ [name] = above ++ first :: (behind ++ [name]) := by
      simp
    rw [h.grown, hplace, put, put, put, Node.put_put _ _ hdir first (by simp), chain_put]

theorem end_free (h : Grown d before first behind above links d') (name : String) :
    d'.root.at? (above ++ first :: behind ++ [name]) = none := by
  rw [Node.at?_append, h.end_empty]
  simp [Node.empty, Node.child?]

end Grown

/-! ## One directory -/

variable {d : Disk}

theorem follow_outside (last : Bool) (rest : List String)
    (h : ∀ es, root.at? here ≠ some (.directory es)) :
    follow root last links here (name :: rest) = .error .notDirectory := by
  rw [follow_piece]
  split
  · rename_i es hdir
    exact absurd hdir (h es)
  · rfl

/-- A last name is free, or something stands there, or no name can be there. -/
theorem follow_name (root : Node) (links : Nat) (here : List String) (hname : IsName name) :
    ((∃ es, root.at? here = some (.directory es)) ∧ Fits name ∧ root.at? (here ++ [name]) = none ∧
        follow root false links here [name] = .ok (.free here name)) ∨
      (root.at? (here ++ [name])).isSome ∧ Fits name ∧
        follow root false links here [name] = .ok (.taken (here ++ [name])) ∨
      ¬ (Fits name ∧ (root.at? (here ++ [name])).isSome) ∧
        ∃ i, i ≠ .noEntry ∧ follow root false links here [name] = .error i := by
  rcases directory_or_outside root here with ⟨es, hdir⟩ | hout
  · have hstays : ¬ (name = "" || name = ".") = true := by simp [hname.1, hname.2.1]
    rw [follow_piece, hdir]
    dsimp only
    rw [if_neg hstays, if_neg hname.2.2.1]
    by_cases hlong : name.utf8ByteSize > longestName
    · rw [if_pos hlong]
      exact .inr (.inr ⟨fun h => absurd h.1 (Nat.not_le.2 hlong), _, by simp, rfl⟩)
    · rw [if_neg hlong]
      cases hx : root.at? (here ++ [name]) with
      | none => exact .inl ⟨⟨es, rfl⟩, Nat.le_of_not_gt hlong, rfl, rfl⟩
      | some x =>
        refine .inr (.inl ⟨rfl, Nat.le_of_not_gt hlong, ?_⟩)
        cases x with
        | link target => rfl
        | _ => simp [follow_nil]
  · refine .inr (.inr ⟨fun h => ?_, _, by simp, follow_outside false [] hout⟩)
    obtain ⟨x, hx⟩ := Option.isSome_iff_exists.1 h.2
    obtain ⟨es, hdir⟩ := Node.directory_above hx
    exact hout es hdir

/-- Pieces that are no names lead to a place, or out of the directories. -/
theorem follow_back (root : Node) (links : Nat) (here : List String) {todo : List String}
    (h : ∀ s ∈ todo, s = "" ∨ s = "." ∨ s = "..") :
    (∃ names, follow root false links here todo = .ok (.taken names)) ∨
      follow root false links here todo = .error .notDirectory := by
  induction todo generalizing here with
  | nil => exact .inl ⟨here, follow_nil⟩
  | cons s rest ih =>
    have hrest := fun h' => ih h' fun t ht => h t (List.mem_cons_of_mem _ ht)
    rw [follow_piece]
    split
    · rcases h s List.mem_cons_self with rfl | rfl | rfl
      · exact hrest here
      · exact hrest here
      · exact hrest here.dropLast
    · exact .inr rfl

theorem makeDirectory_taken {path : String} {names : List String}
    (h : d.place false path = .ok (.taken names)) : d.makeDirectory path = .error .exists := by
  rw [makeDirectory, h]
  rfl

theorem makeDirectory_free {path name : String} {directory : List String}
    (h : d.place false path = .ok (.free directory name)) :
    d.makeDirectory path = .ok (d.put .empty (directory ++ [name])) := by
  rw [makeDirectory, h]
  rfl

theorem makeDirectory_error {path : String} {i : Issue} (h : d.place false path = .error i) :
    d.makeDirectory path = .error i := by
  rw [makeDirectory, h]
  rfl

theorem place_zero {path : String} (last : Bool) (h : ¬ ZeroFree path) :
    d.place last path = .error .zeroInName := by
  rw [place, if_pos (by simpa [ZeroFree] using h)]

/-- A directory is made where its name is free in a directory. It is missing more than that if
the way to it is. -/
theorem makeDirectory_name {init : List Path.Part} (hs : Sound (init ++ [.name name])) :
    (∃ l above, d.way init = .ok (l, above) ∧
        Grown d init name [] above l (d.put .empty (above ++ [name])) ∧
        d.makeDirectory (Path.ofParts (init ++ [.name name])) =
          .ok (d.put .empty (above ++ [name]))) ∨
      d.way init = .error .noEntry ∧
        d.makeDirectory (Path.ofParts (init ++ [.name name])) = .error .noEntry ∨
      ∃ i, i ≠ .noEntry ∧ d.makeDirectory (Path.ofParts (init ++ [.name name])) = .error i := by
  have hname : IsName name := hs.names name (by simp)
  by_cases hzero : ZeroFree (Path.ofParts (init ++ [.name name]))
  · have hplace := place_ofParts (d := d) false hs rfl hzero
    cases hway : d.way init with
    | error i =>
      rw [hway] at hplace
      have := makeDirectory_error (d := d) hplace
      by_cases hi : i = .noEntry
      · exact .inr (.inl ⟨by rw [hi], by rw [this, hi]⟩)
      · exact .inr (.inr ⟨i, hi, this⟩)
    | ok x =>
      obtain ⟨l, above⟩ := x
      rw [hway] at hplace
      rcases follow_name d.root l above hname with
        ⟨hdir, hfits, hfree, hfollow⟩ | ⟨-, -, hfollow⟩ | ⟨-, i, hi, hfollow⟩
      · refine .inl ⟨l, above, rfl, ⟨hway, hdir, hfree, ?_, rfl⟩,
          makeDirectory_free (hplace.trans hfollow)⟩
        simpa using ⟨hname, hfits⟩
      · exact .inr (.inr ⟨_, by simp, makeDirectory_taken (hplace.trans hfollow)⟩)
      · exact .inr (.inr ⟨i, hi, makeDirectory_error (hplace.trans hfollow)⟩)
  · exact .inr (.inr ⟨_, by simp, makeDirectory_error (place_zero false hzero)⟩)

theorem makeDirectory_back {path : String} {l : Nat} {start : List String} (todo : List String)
    (h : ∀ s ∈ todo, s = "" ∨ s = "." ∨ s = "..")
    (hplace : d.place false path = follow d.root false l start todo) :
    ∃ i, i ≠ .noEntry ∧ d.makeDirectory path = .error i := by
  rcases follow_back d.root l start h with ⟨names, hf⟩ | hf
  · exact ⟨_, by simp, makeDirectory_taken (hplace.trans hf)⟩
  · exact ⟨_, by simp, makeDirectory_error (hplace.trans hf)⟩

/-- No directory is made at a part that is no name. -/
theorem makeDirectory_other {init : List Path.Part} {p : Path.Part} (hs : Sound (init ++ [p]))
    (hp : ∀ s, p ≠ .name s) :
    p = .up ∧ d.way init = .error .noEntry ∧
        d.makeDirectory (Path.ofParts (init ++ [p])) = .error .noEntry ∨
      ∃ i, i ≠ .noEntry ∧ d.makeDirectory (Path.ofParts (init ++ [p])) = .error i := by
  cases p with
  | name s => exact absurd rfl (hp s)
  | up =>
    by_cases hzero : ZeroFree (Path.ofParts (init ++ [.up]))
    · have hplace := place_ofParts (d := d) false hs rfl hzero
      cases hway : d.way init with
      | error i =>
        rw [hway] at hplace
        have := makeDirectory_error (d := d) hplace
        by_cases hi : i = .noEntry
        · exact .inl ⟨rfl, by rw [hi], by rw [this, hi]⟩
        · exact .inr ⟨i, hi, this⟩
      | ok x =>
        rw [hway] at hplace
        exact .inr (makeDirectory_back [".."] (by simp) hplace)
    · exact .inr ⟨_, by simp, makeDirectory_error (place_zero false hzero)⟩
  | root =>
    obtain rfl := hs.alone (.inl rfl)
    exact .inr (makeDirectory_back ["", ""] (by simp) rfl)
  | here =>
    obtain rfl := hs.alone (.inr rfl)
    exact .inr (makeDirectory_back ["."] (by simp) rfl)

/-! ## A directory and those above it -/

theorem way_of_isDirectory {ps : List Path.Part} (hs : Sound ps)
    (h : ps ≠ [] → d.isDirectory (Path.ofParts ps) = true) : ∃ x, d.way ps = .ok x := by
  by_cases hne : ps = []
  · subst hne
    exact ⟨_, by rw [way, Path.steps_nil, walk_nil]⟩
  · obtain ⟨-, -, l, D, es, hway, -⟩ := isDirectory_iff.1 (h hne)
    rw [Path.parts_ofParts hs] at hway
    exact ⟨_, hway⟩

/-- Where two dots stand behind a name in the parts of a path, what is before them leads to a
directory. -/
def Firm (d : Disk) (ps : List Path.Part) : Prop :=
  ∀ (a b : List Path.Part) (s : String), ps = a ++ .up :: b → .name s ∈ a →
    d.isDirectory (Path.ofParts a) = true

theorem Firm.front {ps qs : List Path.Part} (h : Firm d (ps ++ qs)) : Firm d ps := by
  rintro a b s rfl hs
  exact h a (b ++ qs) s (by simp) hs

/-- No name is two dots, so that two dots stand before the names. -/
theorem up_before_names {ps a b : List Path.Part} {names : List String}
    (h : ps ++ names.map .name = a ++ .up :: b) : ∃ b', ps = a ++ .up :: b' := by
  have hup : .up ∉ names.map Path.Part.name := by simp
  rcases List.append_eq_append_iff.1 h with ⟨as, -, hnames⟩ | ⟨bs, hps, hback⟩
  · exact absurd (hnames ▸ List.mem_append_right as List.mem_cons_self) hup
  · cases bs with
    | nil =>
      have hback : .up :: b = names.map Path.Part.name := hback
      exact absurd (hback ▸ List.mem_cons_self) hup
    | cons p bs =>
      obtain rfl : Path.Part.up = p := (List.cons.inj hback).1
      exact ⟨bs, hps⟩

theorem Firm.names {ps : List Path.Part} (h : Firm d ps) (names : List String) :
    Firm d (ps ++ names.map .name) := by
  intro a b s hsplit hs
  obtain ⟨b', rfl⟩ := up_before_names hsplit
  exact h a b' s rfl hs

/-- What becomes of a disk when the directory with the parts is made, and those above it that
are missing. -/
inductive Made (d : Disk) (ps : List Path.Part) : Except Issue Unit × Disk → Prop
  /-- There is such a directory. -/
  | stood : (ps ≠ [] → d.isDirectory (Path.ofParts ps) = true) → Made d ps (.ok (), d)
  /-- From the first name that was free on all directories are new. -/
  | made {before : List Path.Part} {first : String} {behind above : List String} {l : Nat}
      {d' : Disk} : ps = before ++ (first :: behind).map .name →
      Grown d before first behind above l d' → Made d ps (.ok (), d')
  /-- Not one could be made. -/
  | refused (i : Issue) : Made d ps (.error i, d)
  /-- Some of the directories above are new, but a later one could not be made. -/
  | stuck (i : Issue) {before rest : List Path.Part} {first : String} {behind above : List String}
      {l : Nat} {d' : Disk} : ps = before ++ (first :: behind).map .name ++ rest → rest ≠ [] →
      Grown d before first behind above l d' → Made d ps (.error i, d')

theorem made_unmade (d : Disk) (ps : List Path.Part) (i : Issue) :
    Made d ps (d.unmade (Path.ofParts ps) i) := by
  unfold unmade
  split
  · rename_i hdir
    exact .stood fun _ => hdir
  · exact .refused i

/-- There is no directory behind an end of the chain. -/
theorem Grown.not_isDirectory {before init : List Path.Part} {first : String}
    {behind above : List String} {d' : Disk} (h : Grown d before first behind above links d')
    (hinit : init = before ++ (first :: behind).map .name) (hs : Sound (init ++ [.name name])) :
    ¬ d'.isDirectory (Path.ofParts (init ++ [.name name])) = true := by
  intro hdir
  obtain ⟨-, -, l, D, es, hway, -⟩ := isDirectory_iff.1 hdir
  have hend := h.way_end
  rw [← hinit] at hend
  obtain ⟨i, hi⟩ := way_free hend h.end_empty (hs.names name (by simp)) (h.end_free name) []
  rw [Path.parts_ofParts hs, hi] at hway
  cases hway

/-- A directory is made with those above it where the way to it is missing something. -/
theorem makeParts_missing {init : List Path.Part} {p : Path.Part} (hs : Sound (init ++ [p]))
    (hfirm : Firm d (init ++ [p])) (hway : d.way init = .error .noEntry)
    (hmake : d.makeDirectory (Path.ofParts (init ++ [p])) = .error .noEntry)
    (ih : Made d init (d.makeParts init.reverse)) :
    Made d (init ++ [p]) (d.makeParts (p :: init.reverse)) := by
  rw [makeParts]
  simp only [List.reverse_cons, List.reverse_reverse, hmake]
  generalize d.makeParts init.reverse = r at ih ⊢
  cases ih with
  | stood h =>
    obtain ⟨x, hx⟩ := way_of_isDirectory hs.front_append h
    rw [hway] at hx
    cases hx
  | refused i => exact .refused i
  | @stuck i before rest first behind above l d' hinit hrest hgrown =>
    exact .stuck i (by rw [hinit, List.append_assoc]) (by simp) hgrown
  | @made before first behind above l d' hinit hgrown =>
    cases p with
    | name s =>
      rcases makeDirectory_name (d := d') hs with ⟨l', end', hway', hlast, hmade⟩ | ⟨hway', -⟩ |
        ⟨i, -, hmade⟩
      · rw [hinit, hgrown.way_end] at hway'
        obtain ⟨rfl, rfl⟩ : l = l' ∧ above ++ first :: behind = end' := by simpa using hway'
        obtain ⟨hname, hfits⟩ := hlast.names s List.mem_cons_self
        simp only [hmade]
        exact .made (by simp [hinit]) (hgrown.snoc hname hfits)
      · rw [hinit, hgrown.way_end] at hway'
        cases hway'
      · simp only [hmade]
        rw [unmade, if_neg (hgrown.not_isDirectory hinit hs)]
        exact .stuck i (by rw [hinit]) (by simp) hgrown
    | up =>
      have hdir := hfirm init [] first (by simp) (by simp [hinit])
      obtain ⟨x, hx⟩ := way_of_isDirectory hs.front_append fun _ => hdir
      rw [hway] at hx
      cases hx
    | root => simp [hs.alone (.inl rfl)] at hinit
    | here => simp [hs.alone (.inr rfl)] at hinit

theorem makeParts_refused {init : List Path.Part} {p : Path.Part} {i : Issue} (hi : i ≠ .noEntry)
    (hmake : d.makeDirectory (Path.ofParts (init ++ [p])) = .error i) :
    Made d (init ++ [p]) (d.makeParts (p :: init.reverse)) := by
  rw [makeParts]
  simp only [List.reverse_cons, List.reverse_reverse, hmake]
  exact made_unmade d (init ++ [p]) i

/-- A directory and those above it are there in the end, or not all of them can be made; what
is new is one chain. -/
theorem makeParts_made {ps : List Path.Part} (hs : Sound ps) (hfirm : Firm d ps) :
    Made d ps (d.makeParts ps.reverse) := by
  induction ps using List.reverseRecOn with
  | nil => exact Made.stood (d := d) (by simp)
  | append_singleton init p ih =>
    have ih := ih hs.front_append hfirm.front
    rw [List.reverse_append, List.reverse_singleton, List.singleton_append]
    by_cases hp : ∃ s, p = .name s
    · obtain ⟨s, rfl⟩ := hp
      rcases makeDirectory_name (d := d) hs with ⟨l, above, -, hgrown, hmade⟩ | ⟨hway, hmade⟩ |
        ⟨i, hi, hmade⟩
      · rw [makeParts]
        simp only [List.reverse_cons, List.reverse_reverse, hmade]
        exact .made rfl hgrown
      · exact makeParts_missing hs hfirm hway hmade ih
      · exact makeParts_refused hi hmade
    · have hother : ∀ s, p ≠ .name s := fun s hs => hp ⟨s, hs⟩
      rcases makeDirectory_other (d := d) hs hother with ⟨-, hway, hmade⟩ | ⟨i, hi, hmade⟩
      · exact makeParts_missing hs hfirm hway hmade ih
      · exact makeParts_refused hi hmade

/-! ## What is kept -/

/-- Everything that stood on the first disk stands on the second, where one works in the same
place. -/
structure Kept (d d' : Disk) : Prop where
  root : Extends d.root d'.root
  workingDirectory : d'.workingDirectory = d.workingDirectory

theorem Kept.refl (d : Disk) : Kept d d := ⟨.refl _, rfl⟩

theorem Kept.trans {d' d'' : Disk} (h : Kept d d') (h' : Kept d' d'') : Kept d d'' :=
  ⟨h.root.trans h'.root, h'.workingDirectory.trans h.workingDirectory⟩

theorem makeDirectory_keeps {d' : Disk} {path : String} (h : d.makeDirectory path = .ok d') :
    Kept d d' := by
  obtain ⟨directory, name, hplace, rfl⟩ := makeDirectory_ok h
  exact ⟨.put _ (place_free hplace).2, rfl⟩

theorem unmade_keeps (d : Disk) (path : String) (i : Issue) : Kept d (d.unmade path i).2 := by
  unfold unmade
  split <;> exact .refl d

theorem makeParts_keeps (d : Disk) (ps : List Path.Part) : Kept d (d.makeParts ps).2 := by
  induction ps with
  | nil => exact .refl d
  | cons p above ih =>
    unfold makeParts
    dsimp only
    split
    · rename_i hmade
      exact makeDirectory_keeps hmade
    · split
      · rename_i heq
        rw [heq] at ih
        exact ih
      · rename_i e heq
        rw [heq] at ih
        refine ih.trans ?_
        split
        · rename_i hmade
          exact makeDirectory_keeps hmade
        · exact unmade_keeps e _ _
    · exact unmade_keeps d _ _

theorem ensureDirectories_keeps (path : String) (d : Disk) :
    Kept d (ensureDirectories path d).2 := by
  have hkept := makeParts_keeps d (Path.parts path).reverse
  unfold ensureDirectories makeAll
  split
  · rename_i heq
    rwa [heq] at hkept
  · rename_i heq
    rwa [heq] at hkept

end CodeSurvey.Disk
