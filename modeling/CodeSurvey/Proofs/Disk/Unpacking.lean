-- What unpacking an archive does to a disk: nothing if one entry is not safe, and
-- else it fills the directory, entry after entry, and leaves everything outside of
-- it as it was.
import CodeSurvey.Proofs.Disk.Entries
import CodeSurvey.Proofs.Disk.Making

namespace CodeSurvey

theorem Command.followedBy_ok {σ α : Type} {x : Command σ Unit} {y : Command σ α} {s s' : σ}
    {u : Unit} (h : x s = (.ok u, s')) : x.followedBy y s = y s' := by
  rw [followedBy, andThen, h]

theorem Command.followedBy_error {σ α : Type} {x : Command σ Unit} {y : Command σ α} {s s' : σ}
    {f : Failure} (h : x s = (.error f, s')) : x.followedBy y s = (.error f, s') := by
  rw [followedBy, andThen, h]

theorem exists_ok {ε α : Type} {x : Except ε α} (h : x.isOk = true) : ∃ a, x = .ok a := by
  cases x with
  | error e => cases h
  | ok a => exact ⟨a, rfl⟩

/-- Where two commands fail together, one of them does. -/
theorem Command.error_of_followedBy {σ α : Type} {x : Command σ Unit} {y : Command σ α} {s : σ}
    {f : Failure} (h : (x.followedBy y s).1 = .error f) :
    (x s).1 = .error f ∨ (y (x s).2).1 = .error f := by
  rcases hx : x s with ⟨r, s'⟩
  cases r with
  | error g =>
    rw [followedBy_error hx] at h
    exact .inl (congrArg _ (Except.error.inj h))
  | ok _ =>
    rw [followedBy_ok hx] at h
    exact .inr h

namespace Disk

open CodeSurvey.Path (IsName Sound ZeroFree)

/-! ## Layouts -/

/-- What stands at rows of names below a directory. -/
abbrev Layout := List String → Option Node

/-- An empty directory. -/
def Layout.bare : Layout := fun q => if q = [] then some .empty else none

/-- The directories along a row of names are there. -/
def Layout.along (names : List String) (m : Layout) : Layout := fun q =>
  if q <+: names then some .empty else m q

/-- What an entry leaves behind: a directory, or a file in place of an earlier one, and the
directories above. An entry without names is the directory itself. -/
def Placed.lay (p : Placed) (m : Layout) : Layout :=
  if p.names = [] then m
  else if p.entry.isDirectory then m.along p.names
  else fun q => if q = p.names then some (.file (.bytes p.entry.bytes)) else
    m.along p.names.dropLast q

/-- What entries leave in an empty directory, one after another. -/
def layout (placed : List Placed) : Layout := placed.foldl (fun m p => p.lay m) .bare

/-- A directory without links, with nothing but names in it. -/
structure Layout.Tidy (m : Layout) : Prop where
  top : m [] = some .empty
  linkless : ∀ q target, m q ≠ some (.link target)
  names : ∀ q, m q ≠ none → ∀ s ∈ q, IsName s

theorem Layout.tidy_bare : Layout.bare.Tidy := by
  refine ⟨rfl, fun q target h => ?_, fun q h s hs => ?_⟩
  · unfold Layout.bare at h
    split at h <;> simp [Node.empty] at h
  · unfold Layout.bare at h
    split at h
    · simp_all
    · exact absurd rfl h

/-- A disk that differs from an earlier one at one place and below it. -/
structure SameBut (D : List String) (base d : Disk) : Prop where
  same : d.workingDirectory = base.workingDirectory
  outside : ∀ q, ¬ D <+: q → d.root.stands q = base.root.stands q

/-- A disk that differs from an earlier one in what is in one directory. -/
structure Filled (base : Disk) (D : List String) (m : Layout) (d : Disk) : Prop
    extends SameBut D base d where
  inside : ∀ q, d.root.stands (D ++ q) = m q

/-! ## Names in a directory without links -/

section

variable {root : Node} {links : Nat} {here : List String}

/-- A turn at a name where no link stands goes on to that name. -/
theorem onto_of_turn {name : String} {t : Turn} (hname : IsName name)
    (hlink : ∀ target, root.at? (here ++ [name]) ≠ some (.link target))
    (h : turn root links here name = .ok t) : t = ⟨links, here ++ [name], []⟩ := by
  obtain ⟨-, ⟨hstays, -⟩ | ⟨hup, -⟩ | ⟨-, -, -, -, ht⟩ | ⟨-, -, -, target, _, htarget, -⟩⟩ :=
    turn_cases h
  · rw [hname.moves] at hstays
    cases hstays
  · exact absurd hup hname.2.2.1
  · exact ht
  · exact absurd htarget (hlink target)

theorem walk_names_end {names : List String} {x : Nat × List String}
    (hnames : ∀ s ∈ names, IsName s)
    (hlinks : ∀ ks target, root.at? (here ++ ks) ≠ some (.link target))
    (h : walk root links here names = .ok x) : x = (links, here ++ names) := by
  induction names generalizing here with
  | nil => simpa using h.symm
  | cons s names ih =>
    obtain ⟨t, ht, hrest⟩ := of_walk_cons h
    obtain rfl := onto_of_turn (hnames s List.mem_cons_self) (hlinks [s]) ht
    have := ih (fun t ht => hnames t (List.mem_cons_of_mem _ ht))
      (fun ks target => by simpa using hlinks (s :: ks) target) hrest
    simpa using this

theorem missing_of_turn {name : String} (h : turn root links here name = .error .noEntry) :
    (∃ es, root.at? here = some (.directory es)) ∧ root.at? (here ++ [name]) = none := by
  unfold turn at h
  split at h
  · rename_i es hdir
    refine ⟨⟨es, hdir⟩, ?_⟩
    repeat' split at h
    all_goals first | assumption | cases h
  · cases h

/-- Names lead to what they spell, or the last of them is free; what is above it is a directory. -/
theorem follow_names_end {names : List String} {place : Place} (hnames : ∀ s ∈ names, IsName s)
    (hne : names ≠ []) (hlinks : ∀ ks target, root.at? (here ++ ks) ≠ some (.link target))
    (h : follow root true links here names = .ok place) :
    ∃ init name, names = init ++ [name] ∧ (∃ es, root.at? (here ++ init) = some (.directory es)) ∧
      (place = .taken (here ++ names) ∨
        place = .free (here ++ init) name ∧ root.at? (here ++ names) = none) := by
  obtain ⟨init, name, rfl⟩ := List.eq_nil_or_concat' names |>.resolve_left hne
  refine ⟨init, name, rfl, ?_⟩
  rw [follow_append true init (by simp)] at h
  obtain ⟨x, hinit, hlast⟩ := of_bind_ok h
  obtain rfl := walk_names_end (fun s hs => hnames s (List.mem_append_left _ hs)) hlinks hinit
  rcases follow_last root links (here ++ init) name with hturn | ⟨hturn, hfree⟩
  · rw [hturn] at hlast
    obtain ⟨t, ht, hend⟩ := of_bind_ok hlast
    have hlink : ∀ target, root.at? (here ++ init ++ [name]) ≠ some (.link target) := by
      intro target
      simpa using hlinks (init ++ [name]) target
    obtain rfl := onto_of_turn (hnames name (by simp)) hlink ht
    rw [follow_nil] at hend
    exact ⟨(turn_cases ht).1, .inl (by simpa using hend.symm)⟩
  · obtain ⟨hdir, hnone⟩ := missing_of_turn hturn
    rw [hfree] at hlast
    exact ⟨hdir, .inr ⟨(Except.ok.inj hlast).symm, by simpa using hnone⟩⟩

/-- Along the names to a directory there are directories. -/
theorem stands_above {D names q : List String} {es : List (String × Node)}
    (h : root.at? (D ++ names) = some (.directory es)) (hq : q <+: names) :
    root.stands (D ++ q) = some .empty := by
  obtain ⟨rest, rfl⟩ := hq
  cases rest with
  | nil => exact Node.stands_of_directory (by simpa using h)
  | cons s rest =>
    rw [← List.append_assoc] at h
    obtain ⟨es', hdir⟩ := Node.directory_above h
    exact Node.stands_of_directory hdir

end

/-! ## Filling a directory -/

theorem Layout.Tidy.along {m : Layout} (h : m.Tidy) {names : List String}
    (hnames : ∀ s ∈ names, IsName s) : (m.along names).Tidy := by
  refine ⟨if_pos List.nil_prefix, fun q target hq => ?_, fun q hq s hs => ?_⟩
  · unfold Layout.along at hq
    split at hq
    · simp [Node.empty] at hq
    · exact h.linkless q target hq
  · unfold Layout.along at hq
    split at hq
    · rename_i hle
      exact hnames s (hle.subset hs)
    · exact h.names q hq s hs

theorem Layout.Tidy.file {m : Layout} (h : m.Tidy) {names : List String} (c : Content)
    (hne : names ≠ []) (hnames : ∀ s ∈ names, IsName s) :
    Layout.Tidy fun q => if q = names then some (.file c) else m q := by
  refine ⟨(if_neg (Ne.symm hne)).trans h.top, fun q target hq => ?_, fun q hq s hs => ?_⟩
  · split at hq
    · simp at hq
    · exact h.linkless q target hq
  · split at hq
    · rename_i heq
      exact hnames s (heq ▸ hs)
    · exact h.names q hq s hs

/-- A path leads to an empty directory. -/
structure Ready (base : Disk) (target : String) (links : Nat) (D : List String) : Prop where
  way : base.way (Path.parts target) = .ok (links, D)
  zeroFree : ZeroFree target
  empty : base.root.at? D = some .empty

theorem ready_of_locate {base : Disk} {target : String} {D : List String}
    (h : base.locate true target = .ok D) (hempty : base.root.at? D = some .empty) :
    ∃ l, Ready base target l D := by
  obtain ⟨hzero, -, l, hway⟩ := (locate_iff hempty).1 h
  exact ⟨l, hway, hzero, hempty⟩

section

variable {base d : Disk} {target : String} {links : Nat} {D : List String} {m : Layout}

theorem Ready.filled (ready : Ready base target links D) : Filled base D .bare base := by
  refine ⟨⟨rfl, fun q _ => rfl⟩, fun q => ?_⟩
  rw [Node.stands, Node.at?_append, ready.empty]
  cases q with
  | nil => rfl
  | cons s q => rfl

theorem Filled.keeps (h : Filled base D m d) (ready : Ready base target links D)
    (htidy : m.Tidy) : Extends base.root d.root := by
  intro q b hb
  by_cases hq : D <+: q
  · obtain ⟨rest, rfl⟩ := hq
    rw [ready.filled.inside, Layout.bare] at hb
    split at hb
    · rename_i hrest
      rw [h.inside, hrest, htidy.top, hb]
    · cases hb
  · rw [h.outside q hq, hb]

theorem Filled.way (h : Filled base D m d) (ready : Ready base target links D) (htidy : m.Tidy) :
    d.way (Path.parts target) = .ok (links, D) := by
  have hbegin : d.begin (Path.parts target) = base.begin (Path.parts target) := by
    simp only [begin, h.same]
  rw [Disk.way, hbegin]
  exact (h.keeps ready htidy).walk ready.way

theorem Filled.directory (h : Filled base D m d) (htidy : m.Tidy) :
    ∃ es, d.root.at? D = some (.directory es) := by
  have := (h.inside []).trans htidy.top
  rw [List.append_nil] at this
  exact Node.directory_of_stands this

theorem Filled.linkless (h : Filled base D m d) (htidy : m.Tidy) (ks : List String)
    (target : String) : d.root.at? (D ++ ks) ≠ some (.link target) := by
  intro hlink
  refine htidy.linkless ks target ?_
  rw [← h.inside, Node.stands, hlink]
  rfl

/-- What leads somewhere has a directory before every two dots. -/
theorem isDirectory_before_up {a b : List Path.Part} (hs : Sound (a ++ .up :: b)) (hne : a ≠ [])
    (hzero : ∀ s, .name s ∈ a → ZeroFree s) {x : Nat × List String}
    (hway : d.way (a ++ .up :: b) = .ok x) : d.isDirectory (Path.ofParts a) = true := by
  have hsound := hs.front_append
  rw [way_append (by simp)] at hway
  obtain ⟨⟨l, here⟩, ha, hup⟩ := of_bind_ok hway
  have hup : walk d.root l here (".." :: Path.steps b) = .ok x := hup
  obtain ⟨t, ht, -⟩ := of_walk_cons hup
  obtain ⟨⟨es, hdir⟩, -⟩ := turn_cases ht
  refine isDirectory_iff.2 ⟨Path.zeroFree_ofParts hzero, Path.ofParts_ne_empty hsound hne, ?_⟩
  exact ⟨l, here, es, by rw [Path.parts_ofParts hsound, ha], hdir⟩

theorem firm_of_way {ps : List Path.Part} {x : Nat × List String} (hs : Sound ps)
    (hzero : ∀ s, .name s ∈ ps → ZeroFree s) (hway : d.way ps = .ok x) : Firm d ps := by
  rintro a b s rfl hmem
  exact isDirectory_before_up hs (List.ne_nil_of_mem hmem)
    (fun t ht => hzero t (List.mem_append_left _ ht)) hway

/-- A chain that grows for a path into the directory grows inside of it. -/
theorem Filled.grown_inside (h : Filled base D m d) (ready : Ready base target links D)
    (htidy : m.Tidy) {names : List String} (hnames : ∀ s ∈ names, IsName s)
    {before rest : List Path.Part} {first : String} {behind above : List String} {l : Nat}
    {d' : Disk} (hg : Grown d before first behind above l d')
    (hsplit : Path.parts target ++ names.map .name =
      before ++ ((first :: behind).map .name ++ rest)) :
    ∃ ks more, names = ks ++ first :: behind ++ more ∧ above = D ++ ks ∧
      rest = more.map .name := by
  have hway := h.way ready htidy
  -- the first new name is not on the way to the directory, which leads there
  obtain ⟨as, hbefore, hback⟩ : ∃ as, before = Path.parts target ++ as ∧
      names.map .name = as ++ ((first :: behind).map .name ++ rest) := by
    rcases List.append_eq_append_iff.1 hsplit with ⟨as, hbefore, hback⟩ | ⟨bs, htarget, hback⟩
    · exact ⟨as, hbefore, hback⟩
    · cases bs with
      | nil => exact ⟨[], by simpa using htarget.symm, by simpa using hback.symm⟩
      | cons p bs =>
        obtain rfl : Path.Part.name first = p := (List.cons.inj hback).1
        obtain ⟨i, hi⟩ := hg.way_through bs
        rw [← htarget, hway] at hi
        cases hi
  obtain ⟨ks, others, rfl, rfl, hothers⟩ := List.map_eq_append_iff.1 hback
  obtain ⟨new, more, rfl, hnew, hmore⟩ := List.map_eq_append_iff.1 hothers
  obtain rfl : new = first :: behind := by
    have hinjective : Function.Injective Path.Part.name := fun a b hab => by injection hab
    exact hinjective.list_map hnew
  refine ⟨ks, more, by simp, ?_, hmore.symm⟩
  have hleads := hg.leads
  rw [hbefore, way_names, hway] at hleads
  have := walk_names_end (fun s hs => hnames s (by simp [hs])) (h.linkless htidy) hleads
  exact (Prod.mk.inj this).2

theorem Filled.chain (h : Filled base D m d) {ks : List String} {before : List Path.Part}
    {first : String} {behind : List String} {l : Nat} {d' : Disk}
    (hg : Grown d before first behind (D ++ ks) l d') :
    Filled base D (m.along (ks ++ first :: behind)) d' := by
  refine ⟨⟨hg.workingDirectory.trans h.same, fun q hq => ?_⟩, fun q => ?_⟩
  · rw [hg.stands_old, h.outside q hq]
    exact fun hle => hq ((List.prefix_append D _).trans (by simpa using hle))
  · by_cases hq : ks ++ [first] <+: q
    · obtain ⟨rest, rfl⟩ := hq
      have hplace : D ++ (ks ++ [first] ++ rest) = D ++ ks ++ first :: rest := by simp
      have hold : m (ks ++ [first] ++ rest) = none := by
        rw [← h.inside, hplace, hg.nothing]
      rw [hplace, hg.stands_new, Layout.along, hold]
      simp
    · have hnew : ¬ D ++ ks ++ [first] <+: D ++ q := by
        rw [List.append_assoc, List.prefix_append_right_inj]
        exact hq
      rw [hg.stands_old hnew, Layout.along]
      split
      · rename_i hle
        -- what is on the way to the new name and not behind it is a directory already
        have hbefore : q <+: ks := by
          have hfirst : ks ++ [first] <+: ks ++ first :: behind := by simp
          rcases List.prefix_or_prefix_of_prefix hle hfirst with hle | hle
          · rcases List.prefix_concat_iff.1 hle with rfl | hle
            · exact absurd (List.prefix_refl _) hq
            · exact hle
          · exact absurd hle hq
        obtain ⟨es, hdir⟩ := hg.directory
        exact stands_above hdir hbefore
      · exact h.inside q

theorem ensureDirectories_eq (path : String) (d : Disk) :
    (ensureDirectories path d).2 = (d.makeAll path).2 ∧
      ((ensureDirectories path d).1 = .ok () ↔ (d.makeAll path).1 = .ok ()) := by
  unfold ensureDirectories
  rcases d.makeAll path with ⟨r, d'⟩
  cases r <;> simp

/-- The directory at a path into the directory is made, or not, with nothing else touched. -/
theorem Filled.ensure (h : Filled base D m d) (ready : Ready base target links D)
    (htidy : m.Tidy) {path : String} {names : List String} (hnames : ∀ s ∈ names, IsName s)
    (hpath : Path.parts path = Path.parts target ++ names.map .name) :
    ∃ m', Filled base D m' (ensureDirectories path d).2 ∧ m'.Tidy ∧
      ((ensureDirectories path d).1 = .ok () → m' = m.along names) := by
  have hway := h.way ready htidy
  have hfirm : Firm d (Path.parts path) := by
    rw [hpath]
    refine Firm.names ?_ names
    exact firm_of_way (Path.sound_parts target) (fun s hs => ready.zeroFree.names hs) hway
  have hmade : Made d (Path.parts path) (d.makeAll path) :=
    makeParts_made (Path.sound_parts path) hfirm
  obtain ⟨hdisk, hok⟩ := ensureDirectories_eq path d
  rw [hdisk, hok]
  generalize d.makeAll path = r at hmade ⊢
  cases hmade with
  | stood hstood =>
    refine ⟨m, h, htidy, fun _ => ?_⟩
    obtain ⟨es, hdir⟩ : ∃ es, d.root.at? (D ++ names) = some (.directory es) := by
      by_cases hempty : Path.parts path = []
      · obtain rfl : names = [] := by
          rw [hempty] at hpath
          simpa using (List.append_eq_nil_iff.1 hpath.symm).2
        simpa using h.directory htidy
      · obtain ⟨-, -, l, X, es, hway', hdir⟩ := isDirectory_iff.1 (hstood hempty)
        rw [Path.parts_ofParts (Path.sound_parts path), hpath, way_names, hway] at hway'
        have := walk_names_end hnames (h.linkless htidy) hway'
        obtain rfl : X = D ++ names := (Prod.mk.inj this).2
        exact ⟨es, hdir⟩
    funext q
    unfold Layout.along
    split
    · rename_i hle
      rw [← h.inside, stands_above hdir hle]
    · rfl
  | refused i => exact ⟨m, h, htidy, fun hok => by cases hok⟩
  | @made before first behind above l d' hsplit hg =>
    have hsplit' : Path.parts target ++ names.map .name =
        before ++ ((first :: behind).map .name ++ []) := by
      rw [List.append_nil, ← hsplit, hpath]
    obtain ⟨ks, more, rfl, rfl, hmore⟩ := h.grown_inside ready htidy hnames hg hsplit'
    obtain rfl : more = [] := by simpa using hmore.symm
    rw [List.append_nil] at hnames ⊢
    exact ⟨_, h.chain hg, htidy.along hnames, fun _ => rfl⟩
  | @stuck i before rest first behind above l d' hsplit hrest hg =>
    obtain ⟨ks, more, rfl, rfl, -⟩ := h.grown_inside ready htidy hnames hg
      (by rw [← List.append_assoc, ← hsplit, hpath])
    refine ⟨_, h.chain hg, htidy.along fun s hs => hnames s ?_, fun hok => by cases hok⟩
    exact List.mem_append_left _ hs

theorem Filled.put_file (h : Filled base D m d) {init : List String} {name : String}
    (hdir : ∃ es, d.root.at? (D ++ init) = some (.directory es))
    (hfile : ∀ es, d.root.at? (D ++ (init ++ [name])) ≠ some (.directory es)) (c : Content) :
    Filled base D (fun q => if q = init ++ [name] then some (.file c) else m q)
      (d.put (.file c) (D ++ (init ++ [name]))) := by
  refine ⟨⟨h.same, fun q hq => ?_⟩, fun q => ?_⟩
  · have hbelow : ¬ D ++ (init ++ [name]) <+: q :=
      fun hle => hq ((List.prefix_append D _).trans hle)
    rw [put, Node.stands_put _ _ hbelow, h.outside q hq]
  · by_cases hq : init ++ [name] <+: q
    · obtain ⟨es, hdir⟩ := hdir
      obtain ⟨rest, rfl⟩ := hq
      have hplace : D ++ (init ++ [name]) = D ++ init ++ [name] := by simp
      have hbelow : D ++ (init ++ [name] ++ rest) = D ++ init ++ name :: rest := by simp
      rw [put, Node.stands, hplace, hbelow, Node.at?_put _ hdir]
      cases rest with
      | nil => simp
      | cons s rest =>
        -- below something that is no directory nothing stood, and nothing stands below a file
        have hnothing : d.root.at? (D ++ (init ++ [name] ++ s :: rest)) = none := by
          rw [← List.append_assoc]
          cases hx : d.root.at? (D ++ (init ++ [name]) ++ s :: rest) with
          | none => rfl
          | some x =>
            obtain ⟨es', hdir'⟩ := Node.directory_above hx
            exact absurd hdir' (hfile es')
        have hold := h.inside (init ++ [name] ++ s :: rest)
        rw [Node.stands, hnothing] at hold
        rw [if_neg (by simp), ← hold]
        simp [Node.child?]
    · have hbelow : ¬ D ++ (init ++ [name]) <+: D ++ q := by
        rw [List.prefix_append_right_inj]
        exact hq
      rw [put, Node.stands_put _ _ hbelow, h.inside, if_neg]
      rintro rfl
      exact hq (List.prefix_refl _)

theorem write_taken {names : List String} {c : Content} {d' : Disk}
    (h : (if (d.root.at? names).any Node.isDirectory then throw Issue.isDirectory
      else return d.put (.file c) names) = Except.ok (ε := Issue) d') :
    (∀ es, d.root.at? names ≠ some (.directory es)) ∧ d' = d.put (.file c) names := by
  split at h
  · cases h
  · rename_i hno
    refine ⟨fun es hes => hno ?_, (Except.ok.inj h).symm⟩
    rw [hes]
    rfl

/-- A file is written at a path into the directory, or not, with nothing else touched. -/
theorem Filled.write (h : Filled base D m d) (ready : Ready base target links D) (htidy : m.Tidy)
    {names : List String} (hne : names ≠ []) (hnames : ∀ s ∈ names, IsName s) (c : Content) :
    ∃ m', Filled base D m' (change (·.write c (Path.join target ("/".intercalate names))) d).2 ∧
      m'.Tidy ∧ ((change (·.write c (Path.join target ("/".intercalate names))) d).1 = .ok () →
        m' = fun q => if q = names then some (.file c) else m q) := by
  generalize hjoin : Path.join target ("/".intercalate names) = path
  cases hwrite : d.write c path with
  | error i =>
    have hchange : change (·.write c path) d = (.error (.io i.message), d) := by
      rw [change, hwrite]
    rw [hchange]
    exact ⟨m, h, htidy, fun hok => by cases hok⟩
  | ok d' =>
    have hchange : change (·.write c path) d = (.ok (), d') := by
      rw [change, hwrite]
    rw [hchange]
    refine ⟨_, ?_, htidy.file c hne hnames, fun _ => rfl⟩
    have hzero : ZeroFree path := by
      by_contra hzero
      rw [Disk.write, place_zero true hzero] at hwrite
      cases hwrite
    have hplace := place_join (d := d) target true hne hnames (hjoin ▸ hzero)
    rw [hjoin, h.way ready htidy] at hplace
    cases hp : d.place true path with
    | error i =>
      rw [Disk.write, hp] at hwrite
      cases hwrite
    | ok place =>
      rw [hp] at hplace
      obtain ⟨init, name, rfl, hdir, hend⟩ :=
        follow_names_end hnames hne (h.linkless htidy) hplace.symm
      obtain ⟨hfile, rfl⟩ : (∀ es, d.root.at? (D ++ (init ++ [name])) ≠ some (.directory es)) ∧
          d' = d.put (.file c) (D ++ (init ++ [name])) := by
        rw [Disk.write, hp] at hwrite
        rcases hend with rfl | ⟨rfl, hfree⟩
        · exact write_taken hwrite
        · refine ⟨fun es hes => by simp [hfree] at hes, ?_⟩
          rw [← List.append_assoc]
          exact (Except.ok.inj hwrite).symm
      exact h.put_file hdir hfile c

/-- One entry goes to its place in the directory, or not, with nothing else touched. -/
theorem Filled.unpackOne (h : Filled base D m d) (ready : Ready base target links D)
    (htidy : m.Tidy) {p : Placed} (hnames : ∀ s ∈ p.names, IsName s) :
    ∃ m', Filled base D m' (Disk.unpackOne target p d).2 ∧ m'.Tidy ∧
      ((Disk.unpackOne target p d).1 = .ok () → m' = p.lay m) := by
  unfold Disk.unpackOne
  by_cases hnil : p.names = []
  · rw [if_pos hnil]
    exact ⟨m, h, htidy, fun _ => by rw [Placed.lay, if_pos hnil]⟩
  rw [if_neg hnil]
  have hpath := Path.parts_join target hnil hnames
  by_cases hdir : p.entry.isDirectory = true
  · rw [if_pos hdir]
    obtain ⟨m', hfilled, htidy', hok⟩ := h.ensure ready htidy hnames hpath
    refine ⟨m', hfilled, htidy', fun hr => ?_⟩
    rw [hok hr, Placed.lay, if_neg hnil, if_pos hdir]
  rw [if_neg hdir]
  have hlast : ∃ init name, p.names = init ++ [name] :=
    (List.eq_nil_or_concat' p.names).resolve_left hnil
  obtain ⟨init, name, hsplit⟩ := hlast
  have hinit : p.names.dropLast = init := by rw [hsplit, List.dropLast_concat]
  have hparent : (Path.parent? (Path.join target ("/".intercalate p.names))).getD "" =
      Path.ofParts (Path.parts target ++ init.map .name) := by
    have hlast : Path.parts (Path.join target ("/".intercalate p.names)) =
        (Path.parts target ++ init.map .name) ++ [.name name] := by
      rw [hpath, hsplit, List.map_append, List.append_assoc]
      rfl
    rw [Path.parent?, hlast, List.getLast?_concat, List.dropLast_concat]
    rfl
  have hsound : Sound (Path.parts target ++ init.map .name) := by
    have := Path.sound_parts (Path.join target ("/".intercalate p.names))
    rw [hpath, hsplit, List.map_append, ← List.append_assoc] at this
    exact this.front_append
  rw [hparent]
  obtain ⟨m₁, hfilled, htidy₁, hok₁⟩ := h.ensure ready htidy
    (fun s hs => hnames s (hsplit ▸ List.mem_append_left _ hs)) (Path.parts_ofParts hsound)
  obtain ⟨m₂, hwritten, htidy₂, hok₂⟩ :=
    hfilled.write ready htidy₁ hnil hnames (.bytes p.entry.bytes)
  rcases hr : ensureDirectories (Path.ofParts (Path.parts target ++ init.map .name)) d with ⟨r, d₁⟩
  rw [hr] at hfilled hok₁ hwritten hok₂
  cases r with
  | error f =>
    rw [Command.followedBy_error hr]
    exact ⟨m₁, hfilled, htidy₁, fun hok => by cases hok⟩
  | ok _ =>
    rw [Command.followedBy_ok hr]
    refine ⟨m₂, hwritten, htidy₂, fun hok => ?_⟩
    rw [hok₂ hok, hok₁ rfl, Placed.lay, if_neg hnil, if_neg hdir, hinit]

/-- Entries are unpacked in order, up to the first that cannot be. -/
theorem Filled.each (h : Filled base D m d) (ready : Ready base target links D) (htidy : m.Tidy)
    {placed : List Placed} (hnames : ∀ p ∈ placed, ∀ s ∈ p.names, IsName s) :
    ∃ m', Filled base D m' (Command.each (Disk.unpackOne target) placed d).2 ∧ m'.Tidy ∧
      ((Command.each (Disk.unpackOne target) placed d).1 = .ok () →
        m' = placed.foldl (fun m p => p.lay m) m) := by
  induction placed generalizing m d with
  | nil => exact ⟨m, h, htidy, fun _ => rfl⟩
  | cons p placed ih =>
    obtain ⟨m₁, hfilled, htidy₁, hone⟩ := h.unpackOne ready htidy (hnames p List.mem_cons_self)
    obtain ⟨m₂, hrest, htidy₂, hall⟩ :=
      ih hfilled htidy₁ fun q hq => hnames q (List.mem_cons_of_mem _ hq)
    rw [Command.each]
    rcases hr : Disk.unpackOne target p d with ⟨r, d₁⟩
    rw [hr] at hfilled hone hrest hall
    cases r with
    | error f =>
      rw [Command.followedBy_error hr]
      exact ⟨m₁, hfilled, htidy₁, fun hok => by cases hok⟩
    | ok _ =>
      rw [Command.followedBy_ok hr]
      refine ⟨m₂, hrest, htidy₂, fun hok => ?_⟩
      rw [hall hok, hone rfl]
      rfl

end

/-! ## Archives -/

variable {archive target : String} {entries : List ArchiveEntry} {d : Disk}

theorem unpack_refused {f : Failure} (hread : archiveAt archive d = .ok entries)
    (hplan : plan entries = .error f) : unpack archive target d = (.error f, d) := by
  simp [unpack, Command.andThen, Command.ask, hread, hplan, Except.bind]

theorem unpack_planned {placed : List Placed} (hread : archiveAt archive d = .ok entries)
    (hplan : plan entries = .ok placed) :
    unpack archive target d = Command.each (unpackOne target) placed d := by
  simp [unpack, Command.andThen, Command.ask, hread, hplan, Except.bind]

theorem isName_of_plan {placed : List Placed} (hplan : plan entries = .ok placed) :
    ∀ p ∈ placed, ∀ s ∈ p.names, IsName s := by
  have hsafe : ∀ e ∈ entries, ¬ e.Unsafe := by
    intro e he hbad
    obtain ⟨f, -, -, hrefused⟩ := plan_refused ⟨e, he, hbad⟩
    rw [hplan] at hrefused
    cases hrefused
  rw [plan_safe hsafe] at hplan
  obtain rfl := Except.ok.inj hplan
  intro p hp
  obtain ⟨e, he, rfl⟩ := List.mem_map.1 hp
  exact ArchiveEntry.isName_names (hsafe e he)

/-- Unpacking fills the directory, and when all goes well with what the entries lay there. -/
theorem unpack_filled {links : Nat} {D : List String} (archive : String)
    (ready : Ready d target links D) :
    ∃ m, Filled d D m (unpack archive target d).2 ∧ m.Tidy ∧
      ((unpack archive target d).1 = .ok () → ∃ entries placed,
        archiveAt archive d = .ok entries ∧ plan entries = .ok placed ∧ m = layout placed) := by
  cases hread : archiveAt archive d with
  | error f =>
    have : unpack archive target d = (.error f, d) := by
      simp [unpack, Command.andThen, Command.ask, hread, Except.bind]
    rw [this]
    exact ⟨.bare, ready.filled, Layout.tidy_bare, fun hok => by cases hok⟩
  | ok entries =>
    cases hplan : plan entries with
    | error f =>
      rw [unpack_refused hread hplan]
      exact ⟨.bare, ready.filled, Layout.tidy_bare, fun hok => by cases hok⟩
    | ok placed =>
      rw [unpack_planned hread hplan]
      obtain ⟨m, hfilled, htidy, hok⟩ :=
        ready.filled.each ready Layout.tidy_bare (isName_of_plan hplan)
      exact ⟨m, hfilled, htidy, fun h => ⟨entries, placed, rfl, hplan, hok h⟩⟩

theorem ensureDirectories_io {path : String} {f : Failure}
    (h : (ensureDirectories path d).1 = .error f) : ∃ text, f = .io text := by
  unfold ensureDirectories at h
  split at h
  · cases h
  · exact ⟨_, (Except.error.inj h).symm⟩

theorem change_io {g : Disk → Except Issue Disk} {f : Failure} (h : (change g d).1 = .error f) :
    ∃ text, f = .io text := by
  unfold change at h
  split at h
  · cases h
  · exact ⟨_, (Except.error.inj h).symm⟩

/-- An entry that was found safe can fail only where the disk refuses it. -/
theorem unpackOne_io {p : Placed} {f : Failure} (h : (unpackOne target p d).1 = .error f) :
    ∃ text, f = .io text := by
  unfold unpackOne at h
  split at h
  · cases h
  · split at h
    · exact ensureDirectories_io h
    · rcases Command.error_of_followedBy h with h | h
      · exact ensureDirectories_io h
      · exact change_io h

theorem each_io {placed : List Placed} {f : Failure}
    (h : (Command.each (unpackOne target) placed d).1 = .error f) : ∃ text, f = .io text := by
  induction placed generalizing d with
  | nil => cases h
  | cons p placed ih =>
    rcases Command.error_of_followedBy h with h | h
    · exact unpackOne_io h
    · exact ih h

/-- What unpacking writes stays in the directory. If one entry is not safe, wherever it stands
in the archive, the archive is refused and nothing is written. If all are safe, each goes to
the path of the directory with names behind it and nothing else; whatever is another way on
the disk afterwards, even when the disk refused an entry, is below the directory by names; and
when the disk refused none, what the entries lay is what is there. -/
theorem unpacking_stays_inside {D : List String} (hread : archiveAt archive d = .ok entries)
    (htarget : d.locate true target = .ok D) (hempty : d.root.at? D = some .empty) :
    ((∃ e ∈ entries, e.Unsafe) →
      ∃ e ∈ entries, e.Unsafe ∧ unpack archive target d = (.error (.unsafeEntry e.name), d)) ∧
    ((∀ e ∈ entries, ¬ e.Unsafe) →
      plan entries = .ok (entries.map ArchiveEntry.placed) ∧
      (∀ e ∈ entries, (∀ s ∈ e.names, IsName s) ∧ (e.names ≠ [] →
        Path.parts (Path.join target ("/".intercalate e.names)) =
          Path.parts target ++ e.names.map .name)) ∧
      (∀ name, (unpack archive target d).1 ≠ .error (.unsafeEntry name)) ∧
      (∀ q, (unpack archive target d).2.root.stands q ≠ d.root.stands q →
        ∃ names, q = D ++ names ∧ names ≠ [] ∧ ∀ s ∈ names, IsName s) ∧
      ((unpack archive target d).1 = .ok () → ∀ q,
        (unpack archive target d).2.root.stands (D ++ q) =
          layout (entries.map ArchiveEntry.placed) q)) := by
  refine ⟨fun hbad => ?_, fun hsafe => ?_⟩
  · obtain ⟨e, he, hbad, hplan⟩ := plan_refused hbad
    exact ⟨e, he, hbad, unpack_refused hread hplan⟩
  · have hplan := plan_safe hsafe
    obtain ⟨l, ready⟩ := ready_of_locate htarget hempty
    obtain ⟨m, hfilled, htidy, hall⟩ := unpack_filled archive ready
    refine ⟨hplan, fun e he => ?_, fun name h => ?_, fun q hq => ?_, fun hok q => ?_⟩
    · have he := ArchiveEntry.isName_names (hsafe e he)
      exact ⟨he, fun hne => Path.parts_join target hne he⟩
    · rw [unpack_planned hread hplan] at h
      obtain ⟨text, htext⟩ := each_io h
      cases htext
    · by_cases hinside : D <+: q
      · obtain ⟨names, rfl⟩ := hinside
        rw [hfilled.inside, ready.filled.inside] at hq
        refine ⟨names, rfl, ?_, htidy.names names ?_⟩
        · rintro rfl
          exact hq htidy.top
        · intro hnothing
          refine hq (hnothing.trans ?_)
          rw [Layout.bare, if_neg]
          rintro rfl
          rw [htidy.top] at hnothing
          cases hnothing
      · exact absurd (hfilled.outside q hinside) hq
    · obtain ⟨entries', placed, hread', hplan', rfl⟩ := hall hok
      obtain rfl := Except.ok.inj (hread'.symm.trans hread)
      obtain rfl := Except.ok.inj (hplan'.symm.trans hplan)
      exact hfilled.inside q

/-- Entries with plain names and no bytes. -/
def shipped (names : List String) : List ArchiveEntry := names.map fun name => ⟨name, none, .empty⟩

/-- A disk with an archive of such entries and an empty directory. -/
def dock (names : List String) : Disk :=
  ⟨.directory [("a.zip", .file (.archive (shipped names))), ("out", .empty)], []⟩

/-- A name that goes back behind one that does not, and three that stay inside. -/
theorem unpacking_stays_inside_of_dock :
    (∃ name, unpack "a.zip" "out" (dock ["x.py", "a\\..\\..\\y.py"]) =
      (.error (.unsafeEntry name), dock ["x.py", "a\\..\\..\\y.py"])) ∧
    (∀ q, (unpack "a.zip" "out" (dock ["src\\x.py", "./docs/", "src//y.py"])).2.root.stands q ≠
        (dock ["src\\x.py", "./docs/", "src//y.py"]).root.stands q →
      ∃ names, q = ["out"] ++ names ∧ names ≠ [] ∧ ∀ s ∈ names, IsName s) ∧
    ∀ q, (unpack "a.zip" "out" (dock ["src\\x.py", "./docs/", "src//y.py"])).2.root.stands
        (["out"] ++ q) =
      layout ((shipped ["src\\x.py", "./docs/", "src//y.py"]).map ArchiveEntry.placed) q := by
  have hread : ∀ names, archiveAt "a.zip" (dock names) = .ok (shipped names) := by
    intro names
    rfl
  have htarget : ∀ names, (dock names).locate true "out" = .ok ["out"] := by
    intro names
    rfl
  have hempty : ∀ names, (dock names).root.at? ["out"] = some .empty := by
    intro names
    rfl
  constructor
  · have hbad : ∃ e ∈ shipped ["x.py", "a\\..\\..\\y.py"], e.Unsafe := by
      refine ⟨⟨"a\\..\\..\\y.py", none, .empty⟩, by simp [shipped], .inr (.inr (.inr ?_))⟩
      decide +kernel
    obtain ⟨e, -, -, h⟩ := (unpacking_stays_inside (hread _) (htarget _) (hempty _)).1 hbad
    exact ⟨e.name, h⟩
  · have hsafe : ∀ e ∈ shipped ["src\\x.py", "./docs/", "src//y.py"], ¬ e.Unsafe := by
      simp only [shipped, ArchiveEntry.Unsafe, List.forall_mem_map]
      decide +kernel
    have hok : (unpack "a.zip" "out" (dock ["src\\x.py", "./docs/", "src//y.py"])).1.isOk =
        true := by decide +kernel
    obtain ⟨-, -, -, hinside, hall⟩ :=
      (unpacking_stays_inside (hread _) (htarget _) (hempty _)).2 hsafe
    obtain ⟨_, hr⟩ := exists_ok hok
    exact ⟨hinside, hall hr⟩

end Disk

end CodeSurvey
