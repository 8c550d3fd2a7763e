-- What discovery keeps of a tree: the files that no ignored directory hides and
-- that are wanted themselves, each once, in the order of the walk. What stands
-- above the root has no part in it. A name is a `String`, and so valid Unicode.
import CodeSurvey.Discovery
import CodeSurvey.Proofs.Analysis.Expected
import CodeSurvey.Proofs.Disk.Order

namespace CodeSurvey

open Disk (Node Content)
open CodeSurvey.Path (IsName)

/-! ## Files that are kept -/

/-- A file with the name and the content is taken when one comes to it. -/
structure Wanted (largest : UInt64) (name : String) (c : Content) : Prop where
  taken : isIgnoredFile name = false
  filled : 0 < c.size
  small : c.size ≤ largest.toNat
  known : ∃ language, languageOf? (extensionOf name) = some language

/-- The names below a node lead to a file, and through no ignored directory. -/
structure Disk.Node.Reaches (n : Node) (names : List String) (c : Content) : Prop where
  file : n.at? names = some (.file c)
  entered : ∀ name ∈ names.dropLast, isIgnoredDirectory name = false

/-- One row of names is walked before another: where they part, its name has the smaller
bytes. -/
def Before (a b : List String) : Prop :=
  ∃ above s t x y, a = above ++ s :: x ∧ b = above ++ t :: y ∧ Text.bytes s < Text.bytes t

/-- What is told of the file with the names below a root. -/
structure FoundFile.Tells (f : FoundFile) (root : String) (names : List String) (c : Content) :
    Prop where
  path : f.path = Path.join root ("/".intercalate names)
  relativePath : f.relativePath = "/".intercalate names
  language : languageOf? (extensionOf (names.getLastD "")) = some f.language
  size : f.size.toNat = c.size
  extension : f.extension = extensionOf (names.getLastD "")

theorem before_irrefl (a : List String) : ¬ Before a a := by
  rintro ⟨above, s, t, x, y, hs, ht, hlt⟩
  obtain ⟨rfl, -⟩ := List.cons.inj (List.append_cancel_left (hs.symm.trans ht))
  exact List.lt_irrefl _ hlt

/-- What `foundFile?` asks of a file. -/
def isWanted (largest : UInt64) (name : String) (c : Content) : Bool :=
  !(isIgnoredFile name || c.size = 0 || c.size > largest.toNat) &&
    (languageOf? (extensionOf name)).isSome

theorem isWanted_iff {largest : UInt64} {name : String} {c : Content} :
    isWanted largest name c = true ↔ Wanted largest name c := by
  unfold isWanted
  constructor
  · intro h
    simp only [Bool.and_eq_true, Bool.not_eq_true', Bool.or_eq_false_iff, decide_eq_false_iff_not,
      Option.isSome_iff_exists] at h
    obtain ⟨⟨⟨htaken, hfilled⟩, hsmall⟩, hknown⟩ := h
    exact ⟨htaken, Nat.pos_of_ne_zero hfilled, Nat.le_of_not_gt hsmall, hknown⟩
  · rintro ⟨htaken, hfilled, hsmall, language, hknown⟩
    simp [htaken, hknown, Nat.ne_of_gt hfilled, hsmall]

variable {largest : UInt64} {root : String} {names : List String} {c : Content}

theorem foundFile?_none (h : isWanted largest (names.getLastD "") c = false) :
    foundFile? largest root names c = none := by
  unfold foundFile?
  dsimp only
  generalize names.getLastD "" = name at h ⊢
  unfold isWanted at h
  split
  · rfl
  · rename_i hask
    rw [Bool.eq_false_iff.2 hask, Bool.not_false, Bool.true_and, Option.isSome_eq_false_iff,
      Option.isNone_iff_eq_none] at h
    rw [h]
    rfl

theorem foundFile?_some (h : isWanted largest (names.getLastD "") c = true) :
    ∃ f, foundFile? largest root names c = some f ∧ f.Tells root names c := by
  obtain ⟨htaken, hfilled, hsmall, language, hknown⟩ := isWanted_iff.1 h
  have hask : (decide (c.size = 0) || decide (c.size > largest.toNat)) = false := by
    simp [Nat.ne_of_gt hfilled, hsmall]
  have hsize : (UInt64.ofNat c.size).toNat = c.size :=
    UInt64.toNat_ofNat_of_lt' (Nat.lt_of_le_of_lt hsmall largest.toNat_lt)
  refine ⟨⟨Path.join root ("/".intercalate names), "/".intercalate names, language,
    UInt64.ofNat c.size, extensionOf (names.getLastD "")⟩, ?_, rfl, rfl, hknown, hsize, rfl⟩
  unfold foundFile?
  dsimp only
  rw [htaken, Bool.false_or, hask, hknown]
  rfl

/-- The rows that are kept, each with what is told of it. -/
theorem filterMap_foundFile? (largest : UInt64) (root : String)
    (rows : List (List String × Content)) :
    List.Forall₂ (fun r f => f.Tells root r.1 r.2)
      (rows.filter fun r => isWanted largest (r.1.getLastD "") r.2)
      (rows.filterMap fun r => foundFile? largest root r.1 r.2) := by
  induction rows with
  | nil => exact .nil
  | cons r rows ih =>
    cases h : isWanted largest (r.1.getLastD "") r.2 with
    | false =>
      rw [List.filter_cons_of_neg (by simpa using h), List.filterMap_cons, foundFile?_none h]
      exact ih
    | true =>
      obtain ⟨f, hf, htells⟩ : ∃ f, foundFile? largest root r.1 r.2 = some f ∧
          f.Tells root r.1 r.2 := foundFile?_some h
      rw [List.filter_cons_of_pos (by simpa using h), List.filterMap_cons, hf]
      exact .cons htells ih

/-! ## The walk -/

/-- The walk goes on to the entry: it is no directory with an ignored name. -/
def isEntered (e : String × Node) : Bool := !(e.2.isDirectory && isIgnoredDirectory e.1)

/-- The walk goes from one entry to the next. -/
theorem filesAmong_eq (above : List String) (entries : List (String × Node)) :
    filesAmong above entries =
      (entries.filter isEntered).flatMap fun e => filesBelow (above ++ [e.1]) e.2 := by
  induction entries with
  | nil => rw [filesAmong, List.filter_nil, List.flatMap_nil]
  | cons e rest ih =>
    obtain ⟨name, n⟩ := e
    rw [filesAmong]
    split
    · rename_i hskip
      rw [List.filter_cons_of_neg (by simp [isEntered, hskip]), ih]
    · rename_i henter
      rw [List.filter_cons_of_pos (by simp [isEntered, henter]), List.flatMap_cons, ih]

theorem Disk.Node.reaches_nil {n : Node} : n.Reaches [] c ↔ n = .file c := by
  constructor
  · intro h
    exact Option.some.inj ((Node.at?_nil n).symm.trans h.file)
  · rintro rfl
    exact ⟨Node.at?_nil _, fun _ hname => absurd hname List.not_mem_nil⟩

/-- A file is reached through the entry that its first name tells, unless that is an ignored
directory. -/
theorem Disk.Node.reaches_cons {entries : List (String × Node)}
    (h : (Node.directory entries).Ordered) {name : String} {rest : List String} :
    (Node.directory entries).Reaches (name :: rest) c ↔
      ∃ n, (name, n) ∈ entries ∧ isEntered (name, n) = true ∧ n.Reaches rest c := by
  constructor
  · rintro ⟨hfile, hentered⟩
    obtain ⟨n, hn, hrest⟩ := Option.bind_eq_some_iff.1 (Node.at?_cons _ name rest ▸ hfile)
    refine ⟨n, Node.mem_of_child? hn, ?_, hrest, fun s hs => hentered s ?_⟩
    · cases rest with
      | nil =>
        rw [Node.reaches_nil.1 ⟨hrest, fun _ hs => absurd hs List.not_mem_nil⟩]
        rfl
      | cons s rest => simp [isEntered, hentered name (by simp)]
    · cases rest with
      | nil => exact absurd hs List.not_mem_nil
      | cons t rest => exact List.mem_cons_of_mem _ hs
  · rintro ⟨n, hmem, henter, hfile, hentered⟩
    refine ⟨?_, fun s hs => ?_⟩
    · rw [Node.at?_cons, h.child? hmem]
      exact hfile
    · cases rest with
      | nil => exact absurd hs List.not_mem_nil
      | cons t rest =>
        rcases List.mem_cons.1 hs with rfl | hs
        · have hdirectory : n.isDirectory = true := by
            cases n with
            | directory es => rfl
            | _ => simp [Node.child?] at hfile
          simpa [isEntered, hdirectory] using henter
        · exact hentered s hs

/-- The walk comes to the files that are reached, and to no others. -/
theorem mem_filesBelow {n : Node} (h : n.Ordered) (above : List String)
    {row : List String × Content} : row ∈ filesBelow above n ↔
      ∃ names, row.1 = above ++ names ∧ n.Reaches names row.2 := by
  obtain ⟨all, c⟩ := row
  induction h generalizing above all with
  | file content =>
    rw [filesBelow, List.mem_singleton, Prod.mk.injEq]
    constructor
    · rintro ⟨rfl, rfl⟩
      exact ⟨[], (List.append_nil _).symm, Node.reaches_nil.2 rfl⟩
    · rintro ⟨names, rfl, hreach⟩
      cases names with
      | nil =>
        obtain rfl := Node.file.inj (Node.reaches_nil.1 hreach)
        exact ⟨List.append_nil above, rfl⟩
      | cons name rest => simpa [Node.child?] using hreach.file
  | link target =>
    rw [filesBelow]
    constructor
    · intro hmem
      exact absurd hmem List.not_mem_nil
    · rintro ⟨names, -, hreach⟩
      cases names with
      | nil => cases Node.reaches_nil.1 hreach
      | cons name rest => simpa [Node.child?] using hreach.file
  | @directory entries sorted named below ih =>
    have h : (Node.directory entries).Ordered := .directory sorted named below
    rw [filesBelow, filesAmong_eq, List.mem_flatMap]
    constructor
    · rintro ⟨⟨name, n⟩, he, hrow⟩
      obtain ⟨hmem, henter⟩ := List.mem_filter.1 he
      obtain ⟨rest, hall, hreach⟩ := (ih _ hmem (above ++ [name]) all).1 hrow
      refine ⟨name :: rest, by simpa using hall, ?_⟩
      exact (Node.reaches_cons h).2 ⟨n, hmem, henter, hreach⟩
    · rintro ⟨names, rfl, hreach⟩
      cases names with
      | nil => cases Node.reaches_nil.1 hreach
      | cons name rest =>
        obtain ⟨n, hmem, henter, hrest⟩ := (Node.reaches_cons h).1 hreach
        refine ⟨(name, n), List.mem_filter.2 ⟨hmem, henter⟩, ?_⟩
        exact (ih _ hmem (above ++ [name]) _).2 ⟨rest, by simp, hrest⟩

/-- The walk is in order: two rows below different entries part at the names of these. -/
theorem sorted_filesBelow {n : Node} (h : n.Ordered) (above : List String) :
    (filesBelow above n).Pairwise fun a b => Before a.1 b.1 := by
  induction h generalizing above with
  | file content =>
    rw [filesBelow]
    exact List.pairwise_singleton _ _
  | link target =>
    rw [filesBelow]
    exact .nil
  | @directory entries sorted named below ih =>
    rw [filesBelow, filesAmong_eq, List.pairwise_flatMap]
    constructor
    · intro e he
      exact ih e (List.mem_of_mem_filter he) (above ++ [e.1])
    · refine (sorted.filter _).imp_of_mem fun {e e'} he he' hlt a ha b hb => ?_
      obtain ⟨x, hx, -⟩ := (mem_filesBelow (below e (List.mem_of_mem_filter he)) _).1 ha
      obtain ⟨y, hy, -⟩ := (mem_filesBelow (below e' (List.mem_of_mem_filter he')) _).1 hb
      exact ⟨above, e.1, e'.1, x, y, by simpa using hx, by simpa using hy,
        Text.bytes_lt_iff.2 hlt⟩

/-! ## Paths below the root -/

/-- Rows of names that are joined by slashes stay apart. -/
theorem intercalate_inj {a b : List String} (ha : ∀ s ∈ a, IsName s) (hb : ∀ s ∈ b, IsName s)
    (hane : a ≠ []) (hbne : b ≠ []) (h : "/".intercalate a = "/".intercalate b) : a = b := by
  rw [← Path.pieces_intercalate hane fun s hs => (ha s hs).2.2.2, h,
    Path.pieces_intercalate hbne fun s hs => (hb s hs).2.2.2]

theorem names_of_reaches {entries : List (String × Node)} (h : (Node.directory entries).Ordered)
    (hreach : (Node.directory entries).Reaches names c) :
    names ≠ [] ∧ ∀ s ∈ names, IsName s := by
  refine ⟨?_, (h.at? hreach.file).1⟩
  rintro rfl
  cases Node.reaches_nil.1 hreach

/-! ## Discovery -/

theorem discover_ok {s : DiscoverySettings} {d : Disk} {entries : List (String × Node)}
    (h : d.entries root = .ok entries) : discover s root d = .ok (.ofEntries s root entries) := by
  rw [discover, h]

/-- The rows of names that lead to the files that are kept, in the order of the walk. -/
def keptRows (largest : UInt64) (entries : List (String × Node)) : List (List String × Content) :=
  (filesBelow [] (.directory entries)).filter fun r => isWanted largest (r.1.getLastD "") r.2

section Kept

variable {largest : UInt64} {entries : List (String × Node)}

theorem mem_keptRows (h : (Node.directory entries).Ordered) :
    (names, c) ∈ keptRows largest entries ↔
      (Node.directory entries).Reaches names c ∧ Wanted largest (names.getLastD "") c := by
  rw [keptRows, List.mem_filter, mem_filesBelow h []]
  refine and_congr ?_ isWanted_iff
  simp

theorem sorted_keptRows (h : (Node.directory entries).Ordered) :
    (keptRows largest entries).Pairwise fun a b => Before a.1 b.1 :=
  (sorted_filesBelow h []).filter _

/-- Each file is told by a row that is kept. -/
theorem tells_keptRows (s : DiscoverySettings) (root : String) (entries : List (String × Node)) :
    List.Forall₂ (fun r f => f.Tells root r.1 r.2) (keptRows s.maxFileSize entries)
      (Discovered.ofEntries s root entries).files := by
  rw [keptRows, filesBelow]
  exact filterMap_foundFile? s.maxFileSize root (filesAmong [] entries)

/-- No two files have one path below the root. -/
theorem nodup_relativePath (s : DiscoverySettings) (root : String)
    (h : (Node.directory entries).Ordered) :
    ((Discovered.ofEntries s root entries).files.map (·.relativePath)).Nodup := by
  have hpaths : (Discovered.ofEntries s root entries).files.map (·.relativePath) =
      (keptRows s.maxFileSize entries).map fun r => "/".intercalate r.1 := by
    have heq : List.Forall₂ (· = ·) _ _ :=
      forall₂_map (tells_keptRows s root entries) fun r (f : FoundFile) hf => hf.relativePath.symm
    rw [List.forall₂_eq_eq_eq] at heq
    exact heq.symm
  rw [hpaths, List.nodup_iff_pairwise_ne, List.pairwise_map]
  refine (sorted_keptRows h).imp_of_mem fun {a b} ha hb hbefore heq => ?_
  obtain ⟨hane, hanames⟩ := names_of_reaches h ((mem_keptRows h).1 ha).1
  obtain ⟨hbne, hbnames⟩ := names_of_reaches h ((mem_keptRows h).1 hb).1
  have hab := intercalate_inj hanames hbnames hane hbne heq
  exact before_irrefl b.1 (hab ▸ hbefore)

end Kept

/-- For a tree there is one list of rows of names that discovery tells of, whatever the path of
the root and the disk around it: it has the files that are wanted and that no ignored directory
hides, each once and in the order of the walk, and no two of them have one path below the root. -/
theorem discovery_is_exact (s : DiscoverySettings) {entries : List (String × Node)}
    (h : (Node.directory entries).Ordered) :
    ∃ rows : List (List String × Content),
      (∀ names c, (names, c) ∈ rows ↔ (Node.directory entries).Reaches names c ∧
        Wanted s.maxFileSize (names.getLastD "") c) ∧
      rows.Pairwise (fun a b => Before a.1 b.1) ∧
      ∀ (d : Disk) (root : String), d.entries root = .ok entries →
        ∃ found, discover s root d = .ok found ∧
          List.Forall₂ (fun r f => f.Tells root r.1 r.2) rows found.files ∧
          (found.files.map (·.relativePath)).Nodup :=
  ⟨keptRows s.maxFileSize entries, fun _ _ => mem_keptRows h, sorted_keptRows h,
    fun _ root hroot =>
      ⟨_, discover_ok hroot, tells_keptRows s root entries, nodup_relativePath s root h⟩⟩

/-- The files that were found below the root are those that are wanted and reached, with different
paths. -/
structure Discovered.Exact (found : Discovered) (largest : UInt64) (root : String)
    (entries : List (String × Node)) : Prop where
  distinct : (found.files.map (·.relativePath)).Nodup
  complete : ∀ names c, (Node.directory entries).Reaches names c →
    Wanted largest (names.getLastD "") c → ∃ f ∈ found.files, f.Tells root names c
  sound : ∀ f ∈ found.files, ∃ names c, (Node.directory entries).Reaches names c ∧
    Wanted largest (names.getLastD "") c ∧ f.Tells root names c

/-- On a disk that was built, discovery finds what is below any directory. -/
theorem discover_of_built (s : DiscoverySettings) {d : Disk} (built : d.Built)
    {entries : List (String × Node)} (hroot : d.entries root = .ok entries) :
    ∃ found, discover s root d = .ok found ∧ found.Exact s.maxFileSize root entries := by
  have h : (Node.directory entries).Ordered := built.ordered.entries hroot
  have htells := tells_keptRows s root entries
  refine ⟨_, discover_ok hroot, nodup_relativePath s root h, fun names c hreach hwanted => ?_,
    fun f hf => ?_⟩
  · exact exists_of_mem_left htells ((mem_keptRows h).2 ⟨hreach, hwanted⟩)
  · obtain ⟨⟨names, c⟩, hrow, hfile⟩ := exists_of_mem_left htells.flip hf
    obtain ⟨hreach, hwanted⟩ := (mem_keptRows h).1 hrow
    exact ⟨names, c, hreach, hwanted, hfile⟩

/-- So it does where a repository was brought to the disk before, whatever became of that. -/
theorem discover_of_materialized (s : DiscoverySettings) {w : Workspace} {d : Disk} (built : d.Built)
    (hclone : ∀ url reference path, Disk.Builds (w.clone url reference path)) (repository : String)
    (source : RepositorySource) {entries : List (String × Node)}
    (hroot : (w.materialize repository source d).2.entries root = .ok entries) :
    ∃ found, discover s root (w.materialize repository source d).2 = .ok found ∧
      found.Exact s.maxFileSize root entries :=
  discover_of_built s (Disk.Builds.materialize hclone repository source d built) hroot

/-! ## A small tree -/

namespace SmallTree

def text : Content := .bytes "x".toUTF8

/-- A directory whose name is the start of that of a file, an ignored one, a file without bytes, a
link, a file whose name has an ignored ending and one in no known language. -/
def entries : List (String × Node) :=
  [("a", .directory [("b.PY", .file text), ("target", .directory [("c.py", .file text)])]),
    ("a.py", .file text), ("e.py", .file (.bytes .empty)), ("l.py", .link "a.py"),
    ("x.min.js", .file text), ("z.none", .file text)]

/-- The tree below a directory that would be ignored further down. -/
def disk : Disk := ⟨.directory [("vendor", .directory entries)], []⟩

theorem ordered : (Node.directory entries).Ordered := by
  have hbelow : (Node.directory [("c.py", .file text)]).Ordered :=
    .directory (by simp) (by decide) (by simp [Node.Ordered.file])
  have hfirst : (Node.directory [("b.PY", .file text),
      ("target", .directory [("c.py", .file text)])]).Ordered :=
    .directory (by decide) (by decide) (by simp [Node.Ordered.file, hbelow])
  exact .directory (by decide) (by decide)
    (by simp [entries, Node.Ordered.file, Node.Ordered.link, hfirst])

theorem entries_disk : disk.entries "/vendor" = .ok entries := by
  have hroot : disk.root.at? [] = some disk.root := rfl
  have htree : disk.root.at? [] = some (.directory [("vendor", .directory entries)]) := rfl
  have hat : disk.root.at? ["vendor"] = some (.directory entries) := rfl
  have hplace : disk.place true "/vendor" = .ok (.taken ["vendor"]) := by
    have hpieces : Disk.pieces "/vendor" = ["", "vendor"] := by decide +kernel
    have habsolute : Path.isAbsolute "/vendor" = true := by decide +kernel
    have hzero : "/vendor".toList.contains '\x00' = false := by decide +kernel
    simp only [Disk.place, hpieces, habsolute, hzero, if_true, if_false, Bool.false_eq_true,
      String.reduceEq]
    exact (Disk.follow_empty htree ["vendor"]).trans ((Disk.follow_entry htree
      (by decide) hat (by simp) []).trans Disk.follow_nil)
  simp only [Disk.entries, Disk.node, Disk.locate, hplace, hat, bind, Except.bind, pure,
    Except.pure]

end SmallTree

/-- Of the small tree two files are kept, that in the directory first. -/
theorem discovery_of_the_small_tree :
    (Node.directory SmallTree.entries).Ordered ∧
      SmallTree.disk.entries "/vendor" = .ok SmallTree.entries ∧
      ∃ rows found, (∀ names c, (names, c) ∈ rows ↔
          (Node.directory SmallTree.entries).Reaches names c ∧ Wanted 1 (names.getLastD "") c) ∧
        rows.Pairwise (fun a b => Before a.1 b.1) ∧
        discover ⟨1⟩ "/vendor" SmallTree.disk = .ok found ∧
        List.Forall₂ (fun r f => f.Tells "/vendor" r.1 r.2) rows found.files ∧
        found.files = [⟨"/vendor/a/b.PY", "a/b.PY", "python", 1, "py"⟩,
          ⟨"/vendor/a.py", "a.py", "python", 1, "py"⟩] := by
  obtain ⟨rows, hrows, hsorted, hfound⟩ := discovery_is_exact ⟨1⟩ SmallTree.ordered
  obtain ⟨found, hdiscover, htells, -⟩ := hfound SmallTree.disk "/vendor" SmallTree.entries_disk
  refine ⟨SmallTree.ordered, SmallTree.entries_disk, rows, found, hrows, hsorted, hdiscover,
    htells, ?_⟩
  obtain rfl := Except.ok.inj (hdiscover.symm.trans (discover_ok SmallTree.entries_disk))
  decide +kernel

end CodeSurvey
