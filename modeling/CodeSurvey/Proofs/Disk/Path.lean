-- The parts of a path and the pieces between its slashes: what a path is made of
-- when names are put behind it, and that the parts of a path tell all of it.
import CodeSurvey.Disk
import CodeSurvey.Proofs.Text.Pieces
import Mathlib.Data.List.Infix
import Mathlib.Tactic.Common

namespace CodeSurvey.Path

/-- A text that can stand as a name in a path: no slash, and no way to stay or to go back. -/
def IsName (s : String) : Prop := s ≠ "" ∧ s ≠ "." ∧ s ≠ ".." ∧ '/' ∉ s.toList

instance : DecidablePred IsName := fun s =>
  inferInstanceAs (Decidable (s ≠ "" ∧ s ≠ "." ∧ s ≠ ".." ∧ '/' ∉ s.toList))

/-- The piece leads away from where one stands. -/
def moves (piece : String) : Bool := piece ≠ "" && piece ≠ "."

theorem IsName.moves {s : String} (h : IsName s) : moves s = true := by
  simp [Path.moves, h.1, h.2.1]

/-- The piece that a part is followed by; nothing for one that stays. -/
def Part.step? : Part → Option String
  | .name s => some s
  | .up => some ".."
  | _ => none

def steps (ps : List Part) : List String := ps.filterMap Part.step?

def ofStep (s : String) : Part := if s = ".." then .up else .name s

/-- The part that a path starts with, if that is no step. -/
def lead (path : String) : List Part :=
  if isAbsolute path then [.root]
  else if (Disk.pieces path).head? = some "." then [.here]
  else []

/-- The parts are in the form in which paths have them: names are names, and the root and this
directory stand in front only. -/
structure Sound (ps : List Part) : Prop where
  names : ∀ s, Part.name s ∈ ps → IsName s
  front : ∀ p ∈ ps.tail, p ≠ .root ∧ p ≠ .here

@[simp] theorem steps_nil : steps [] = [] := rfl

@[simp] theorem steps_append (ps qs : List Part) : steps (ps ++ qs) = steps ps ++ steps qs :=
  List.filterMap_append

@[simp] theorem steps_names (names : List String) : steps (names.map .name) = names := by
  induction names with
  | nil => rfl
  | cons s names ih =>
    show s :: steps (names.map .name) = s :: names
    rw [ih]

@[simp] theorem step?_ofStep (s : String) : (ofStep s).step? = some s := by
  unfold ofStep
  split
  · simp [Part.step?, *]
  · rfl

theorem steps_map_ofStep (pieces : List String) : steps (pieces.map ofStep) = pieces := by
  induction pieces with
  | nil => rfl
  | cons s pieces ih =>
    rw [List.map_cons, steps, List.filterMap_cons_some (step?_ofStep s)]
    exact congrArg _ ih

theorem steps_lead (path : String) : steps (lead path) = [] := by
  unfold lead
  split
  · rfl
  · split <;> rfl

theorem ofStep_ne (s : String) : ofStep s ≠ .root ∧ ofStep s ≠ .here := by
  unfold ofStep
  split <;> simp

theorem ofStep_name {s : String} (h : IsName s) : ofStep s = .name s := if_neg h.2.2.1

theorem map_ofStep_names {names : List String} (h : ∀ s ∈ names, IsName s) :
    names.map ofStep = names.map .name :=
  List.map_congr_left fun s hs => ofStep_name (h s hs)

/-! ## Pieces -/

theorem pieces_ne_nil (path : String) : Disk.pieces path ≠ [] := by
  simp [Disk.pieces]

theorem pieces_slash (a b : String) :
    Disk.pieces (a ++ "/" ++ b) = Disk.pieces a ++ Disk.pieces b := by
  have : (a ++ "/" ++ b).toList = a.toList ++ '/' :: b.toList := by simp
  rw [Disk.pieces, this, List.splitOn_append_cons_self, List.map_append]
  rfl

theorem pieces_intercalate {names : List String} (hne : names ≠ [])
    (h : ∀ s ∈ names, '/' ∉ s.toList) : Disk.pieces ("/".intercalate names) = names := by
  have hslash : "/".toList = ['/'] := rfl
  rw [Disk.pieces, String.toList_intercalate, hslash,
    List.splitOn_intercalate '/' (by simpa using h) (by simpa using hne), List.map_map]
  simp

theorem mem_pieces {path s : String} (h : s ∈ Disk.pieces path) :
    '/' ∉ s.toList ∧ ∀ c ∈ s.toList, c ∈ path.toList := by
  obtain ⟨piece, hpiece, rfl⟩ := List.mem_map.1 h
  rw [String.toList_ofList]
  exact Text.mem_splitOn hpiece

theorem partOf_ofList (cs : List Char) : partOf cs =
    if moves (String.ofList cs) then some (ofStep (String.ofList cs))
    else if String.ofList cs = "." then some .here
    else none := by
  have hof : ∀ l : List Char, String.ofList cs = String.ofList l ↔ cs = l := fun l =>
    ⟨fun h => by simpa using congrArg String.toList h, fun h => by rw [h]⟩
  have h0 : String.ofList cs = "" ↔ cs = [] := hof []
  have h1 : String.ofList cs = "." ↔ cs = ['.'] := hof ['.']
  have h2 : String.ofList cs = ".." ↔ cs = ['.', '.'] := hof ['.', '.']
  unfold partOf moves ofStep
  simp only [ne_eq, h0, h1, h2]
  by_cases hn : cs = []
  · simp [hn]
  · by_cases hd : cs = ['.']
    · simp [hd]
    · by_cases hu : cs = ['.', '.']
      · simp [hu]
      · simp [hn, hd, hu]

/-- A path has what it starts with and then a part for each piece that moves. -/
theorem parts_eq (path : String) :
    parts path = lead path ++ ((Disk.pieces path).filter moves).map ofStep := by
  have hall : (((path.toList.splitOn '/').filterMap partOf).filter (· ≠ .here)) =
      ((Disk.pieces path).filter moves).map ofStep := by
    rw [Disk.pieces]
    induction path.toList.splitOn '/' with
    | nil => rfl
    | cons cs rest ih =>
      rw [List.filterMap_cons, List.map_cons, partOf_ofList]
      by_cases hm : moves (String.ofList cs)
      · have hhere := (ofStep_ne (String.ofList cs)).2
        rw [if_pos hm, List.filter_cons_of_pos (by simpa using hhere), List.filter_cons_of_pos hm,
          List.map_cons, ih]
      · rw [if_neg hm, List.filter_cons_of_neg hm, ← ih]
        by_cases hdot : String.ofList cs = "."
        · rw [if_pos hdot]
          simp
        · rw [if_neg hdot]
  have hhead : ((path.toList.splitOn '/').head? = some ['.']) ↔
      (Disk.pieces path).head? = some "." := by
    rw [Disk.pieces, List.head?_map]
    constructor
    · intro h
      rw [h]
      rfl
    · intro h
      obtain ⟨cs, hcs, hdot⟩ := Option.map_eq_some_iff.1 h
      have := congrArg String.toList hdot
      rw [hcs, ← String.toList_ofList (l := cs), this]
      rfl
  unfold parts lead
  simp only [hall, hhead]
  split
  · rfl
  · rfl

@[simp] theorem parts_empty : parts "" = [] := by
  decide

theorem steps_parts (path : String) : steps (parts path) = (Disk.pieces path).filter moves := by
  rw [parts_eq, steps_append, steps_lead, List.nil_append, steps_map_ofStep]

theorem isName_of_moves {path s : String} (h : s ∈ (Disk.pieces path).filter moves)
    (hup : s ≠ "..") : IsName s := by
  obtain ⟨hmem, hmoves⟩ := List.mem_filter.1 h
  have : s ≠ "" ∧ s ≠ "." := by simpa [moves] using hmoves
  exact ⟨this.1, this.2, hup, (mem_pieces hmem).1⟩

theorem name_mem_parts {path s : String} (h : .name s ∈ parts path) :
    IsName s ∧ s ∈ Disk.pieces path := by
  rw [parts_eq, List.mem_append] at h
  rcases h with h | h
  · unfold lead at h
    split at h
    · simp at h
    · split at h <;> simp at h
  · obtain ⟨t, ht, hst⟩ := List.mem_map.1 h
    unfold ofStep at hst
    split at hst
    · cases hst
    · rename_i hup
      obtain rfl : t = s := by simpa using hst
      exact ⟨isName_of_moves ht hup, (List.mem_filter.1 ht).1⟩

theorem sound_parts (path : String) : Sound (parts path) := by
  refine ⟨fun s hs => (name_mem_parts hs).1, fun p hp => ?_⟩
  have hstep : p ∈ ((Disk.pieces path).filter moves).map ofStep := by
    rw [parts_eq] at hp
    unfold lead at hp
    split at hp
    · exact hp
    · split at hp
      · exact hp
      · exact List.mem_of_mem_tail hp
  obtain ⟨t, -, rfl⟩ := List.mem_map.1 hstep
  exact ofStep_ne t

theorem head?_parts (path : String) : (parts path).head? = some .root ↔ isAbsolute path = true := by
  rw [parts_eq]
  unfold lead
  by_cases h : isAbsolute path = true
  · simp [h]
  · have hsteps : (((Disk.pieces path).filter moves).map ofStep).head? ≠ some .root := by
      rw [List.head?_map]
      intro hroot
      obtain ⟨t, -, ht⟩ := Option.map_eq_some_iff.1 hroot
      exact (ofStep_ne t).1 ht
    rw [if_neg h]
    split
    · simp [h]
    · exact iff_of_false hsteps h

/-! ## Names behind a path -/

theorem head?_pieces_of_isAbsolute {path : String} (h : isAbsolute path = true) :
    (Disk.pieces path).head? = some "" := by
  have hfirst : path.toList.head? = some '/' := by simpa [isAbsolute] using h
  obtain ⟨rest, hrest⟩ := List.head?_eq_some_iff.1 hfirst
  rw [Disk.pieces, hrest, List.splitOn_cons_eq_if_modifyHead]
  rfl

theorem intercalate_not_absolute {names : List String} (h : ∀ s ∈ names, IsName s) :
    isAbsolute ("/".intercalate names) = false := by
  rw [Bool.eq_false_iff]
  intro habsolute
  have hhead := head?_pieces_of_isAbsolute habsolute
  cases names with
  | nil => simp [isAbsolute] at habsolute
  | cons s names =>
    rw [pieces_intercalate (by simp) fun x hx => (h x hx).2.2.2] at hhead
    exact (h s List.mem_cons_self).1 (by simpa using hhead)

theorem isAbsolute_append {base : String} (h : base ≠ "") (rest : String) :
    isAbsolute (base ++ rest) = isAbsolute base := by
  have : base.toList ≠ [] := by simpa using h
  obtain ⟨c, cs, hcs⟩ := List.exists_cons_of_ne_nil this
  simp [isAbsolute, hcs]

theorem lead_append {base tail : String} (h : base ≠ "") {front back : List String}
    (hpieces : Disk.pieces (base ++ tail) = front ++ back)
    (hfront : front.head? = (Disk.pieces base).head?) : lead (base ++ tail) = lead base := by
  have : (Disk.pieces (base ++ tail)).head? = (Disk.pieces base).head? := by
    rw [hpieces, List.head?_append, hfront]
    obtain ⟨c, cs, hcs⟩ := List.exists_cons_of_ne_nil (pieces_ne_nil base)
    simp [hcs]
  rw [lead, lead, isAbsolute_append h, this]

/-- A path behind which something is put, as its pieces: those of the path, but for an empty
one at the end. -/
theorem pieces_behind (base tail : String) :
    ∃ front, Disk.pieces (if base.toList.getLast? = some '/' then base ++ tail
        else base ++ "/" ++ tail) = front ++ Disk.pieces tail ∧
      front.filter moves = (Disk.pieces base).filter moves ∧
      front.head? = (Disk.pieces base).head? := by
  split
  · rename_i hlast
    obtain ⟨cs, hcs⟩ := List.getLast?_eq_some_iff.1 hlast
    have hbase : base = String.ofList cs ++ "/" := by
      rw [← String.toList_inj, hcs]
      simp
    have hpieces : Disk.pieces base = Disk.pieces (String.ofList cs) ++ [""] := by
      have := pieces_slash (String.ofList cs) ""
      rw [String.append_empty] at this
      rw [hbase, this]
      rfl
    refine ⟨Disk.pieces (String.ofList cs), ?_, ?_, ?_⟩
    · rw [hbase, pieces_slash]
    · rw [hpieces, List.filter_append]
      simp [moves]
    · rw [hpieces]
      obtain ⟨c, r, hr⟩ := List.exists_cons_of_ne_nil (pieces_ne_nil (String.ofList cs))
      simp [hr]
  · exact ⟨Disk.pieces base, pieces_slash base tail, rfl, rfl⟩

/-- Names behind a path: the pieces are those of the path, but for one that stays, and then the
names. -/
theorem pieces_join (base : String) {names : List String} (hne : names ≠ [])
    (h : ∀ s ∈ names, IsName s) :
    ∃ front, Disk.pieces (join base ("/".intercalate names)) = front ++ names ∧
      front.filter moves = (Disk.pieces base).filter moves ∧
      lead (join base ("/".intercalate names)) = lead base := by
  have hnames := pieces_intercalate hne fun s hs => (h s hs).2.2.2
  have hrel := intercalate_not_absolute h
  rw [join, if_neg (by simp [hrel])]
  by_cases hbase : base = ""
  · subst hbase
    refine ⟨[], by simpa using hnames, rfl, ?_⟩
    obtain ⟨s, rest, rfl⟩ := List.exists_cons_of_ne_nil hne
    have hdot : s ≠ "." := (h s List.mem_cons_self).2.1
    have hempty : "".isEmpty = true := by decide
    rw [if_pos hempty, lead, hrel, hnames, if_neg (by simp), if_neg (by simpa using hdot)]
    decide
  · rw [if_neg (by simpa using hbase)]
    obtain ⟨front, hpieces, hfront, hhead⟩ := pieces_behind base ("/".intercalate names)
    rw [hnames] at hpieces
    refine ⟨front, hpieces, hfront, ?_⟩
    split
    · rename_i hlast
      rw [if_pos hlast] at hpieces
      exact lead_append hbase hpieces hhead
    · rename_i hlast
      rw [if_neg hlast, String.append_assoc] at hpieces
      rw [String.append_assoc]
      exact lead_append hbase hpieces hhead

theorem parts_join (base : String) {names : List String} (hne : names ≠ [])
    (h : ∀ s ∈ names, IsName s) :
    parts (join base ("/".intercalate names)) = parts base ++ names.map .name := by
  obtain ⟨front, hpieces, hfront, hlead⟩ := pieces_join base hne h
  have hnames : names.filter moves = names :=
    List.filter_eq_self.2 fun s hs => (h s hs).moves
  rw [parts_eq, hpieces, hlead, List.filter_append, hfront, hnames, List.map_append,
    map_ofStep_names h, parts_eq base, List.append_assoc]

/-! ## Parts as a path -/

theorem slash_not_mem_text {ps : List Part} (h : ∀ s, Part.name s ∈ ps → IsName s) :
    ∀ t ∈ ps.map Part.text, '/' ∉ t.toList := by
  intro t ht
  obtain ⟨p, hp, rfl⟩ := List.mem_map.1 ht
  cases p with
  | name s => exact (h s hp).2.2.2
  | _ => decide

theorem pieces_ofParts {ps : List Part} (h : Sound ps) (hne : ps ≠ []) (hroot : ps ≠ [.root]) :
    Disk.pieces (ofParts ps) = ps.map Part.text := by
  have hof : ofParts ps = "/".intercalate (ps.map Part.text) := by
    unfold ofParts
    split
    · exact absurd rfl hroot
    · rfl
  rw [hof]
  exact pieces_intercalate (by simpa using hne) (slash_not_mem_text h.names)

theorem isAbsolute_of_pieces {path s : String} {rest : List String}
    (h : Disk.pieces path = "" :: s :: rest) : isAbsolute path = true := by
  rw [Disk.pieces, List.map_eq_cons_iff] at h
  obtain ⟨first, others, hsplit, hfirst, hothers⟩ := h
  obtain ⟨second, rest, rfl, -, -⟩ := List.map_eq_cons_iff.1 hothers
  have hnil : first = [] := by simpa using hfirst
  have hjoined : ['/'].intercalate (path.toList.splitOn '/') = path.toList :=
    List.intercalate_splitOn '/'
  rw [hsplit, hnil] at hjoined
  rw [isAbsolute, ← hjoined]
  simp

theorem filter_text {ps : List Part} (h : ∀ s, Part.name s ∈ ps → IsName s) :
    (ps.map Part.text).filter moves = steps ps := by
  induction ps with
  | nil => rfl
  | cons p ps ih =>
    have hps := ih fun s hs => h s (List.mem_cons_of_mem _ hs)
    cases p with
    | name s =>
      have hmoves : moves (Part.name s).text = true := (h s List.mem_cons_self).moves
      rw [List.map_cons, List.filter_cons_of_pos hmoves, hps]
      rfl
    | up => exact congrArg _ hps
    | _ => exact hps

theorem map_ofStep_steps {ps : List Part} (hnames : ∀ s, Part.name s ∈ ps → IsName s)
    (hsteps : ∀ p ∈ ps, p ≠ .root ∧ p ≠ .here) : (steps ps).map ofStep = ps := by
  induction ps with
  | nil => rfl
  | cons p ps ih =>
    have hps := ih (fun s hs => hnames s (List.mem_cons_of_mem _ hs))
      (fun q hq => hsteps q (List.mem_cons_of_mem _ hq))
    cases p with
    | name s =>
      show ofStep s :: (steps ps).map ofStep = .name s :: ps
      rw [ofStep_name (hnames s List.mem_cons_self), hps]
    | up => exact congrArg _ hps
    | root => exact absurd rfl (hsteps _ List.mem_cons_self).1
    | here => exact absurd rfl (hsteps _ List.mem_cons_self).2

/-- The parts of a path tell all of it. -/
theorem parts_ofParts {ps : List Part} (h : Sound ps) : parts (ofParts ps) = ps := by
  cases ps with
  | nil => decide
  | cons p rest =>
    by_cases hroot : p :: rest = [.root]
    · rw [hroot]
      decide
    have hpieces := pieces_ofParts h (by simp) hroot
    have hrest : (steps rest).map ofStep = rest :=
      map_ofStep_steps (fun s hs => h.names s (List.mem_cons_of_mem _ hs)) h.front
    have habsolute : p.text ≠ "" → isAbsolute (ofParts (p :: rest)) = false := by
      intro htext
      rw [Bool.eq_false_iff]
      intro habsolute
      have := head?_pieces_of_isAbsolute habsolute
      rw [hpieces] at this
      exact htext (by simpa using this)
    rw [parts_eq, hpieces, filter_text h.names, lead, hpieces]
    cases p with
    | root =>
      obtain ⟨q, others, rfl⟩ := List.exists_cons_of_ne_nil (l := rest) (by simpa using hroot)
      rw [if_pos (isAbsolute_of_pieces hpieces)]
      exact congrArg _ hrest
    | here =>
      rw [habsolute (by decide)]
      exact congrArg _ hrest
    | up =>
      rw [habsolute (by decide)]
      exact congrArg (Part.up :: ·) hrest
    | name s =>
      have hs := h.names s List.mem_cons_self
      rw [habsolute hs.1, if_neg (by simp), if_neg (by simpa [Part.text] using hs.2.1)]
      show ofStep s :: (steps rest).map ofStep = .name s :: rest
      rw [ofStep_name hs, hrest]

theorem Sound.front_append {ps qs : List Part} (h : Sound (ps ++ qs)) : Sound ps :=
  ⟨fun s hs => h.names s (List.mem_append_left _ hs), fun p hp => h.front p (by
    rcases ps with - | ⟨q, ps⟩
    · simp at hp
    · exact List.mem_append_left _ hp)⟩

theorem Sound.alone {init : List Part} {p : Part} (h : Sound (init ++ [p]))
    (hp : p = .root ∨ p = .here) : init = [] := by
  cases init with
  | nil => rfl
  | cons q qs =>
    obtain ⟨hroot, hhere⟩ := h.front p (by simp)
    rcases hp with rfl | rfl
    · exact absurd rfl hroot
    · exact absurd rfl hhere

theorem ofParts_ne_empty {ps : List Part} (h : Sound ps) (hne : ps ≠ []) : ofParts ps ≠ "" := by
  intro hempty
  have := parts_ofParts h
  rw [hempty] at this
  exact hne this.symm

/-! ## Zeros -/

/-- No name on a disk has a zero in it. -/
def ZeroFree (path : String) : Prop := '\x00' ∉ path.toList

instance : DecidablePred ZeroFree := fun path =>
  inferInstanceAs (Decidable ('\x00' ∉ path.toList))

theorem ZeroFree.names {path s : String} (h : ZeroFree path) (hs : .name s ∈ parts path) :
    ZeroFree s := fun hzero => h ((mem_pieces (name_mem_parts hs).2).2 _ hzero)

theorem zeroFree_ofParts {ps : List Part} (h : ∀ s, Part.name s ∈ ps → ZeroFree s) :
    ZeroFree (ofParts ps) := by
  unfold ofParts
  split
  · decide
  · have htext : ∀ t ∈ ps.map Part.text, '\x00' ∉ t.toList := by
      intro t ht
      obtain ⟨p, hp, rfl⟩ := List.mem_map.1 ht
      cases p with
      | name s => exact h s hp
      | _ => decide
    have hplain : ∀ s ∈ (ps.map Part.text).map String.toList, ∀ c ∈ s, c ≠ '\x00' := by
      intro s hs c hc heq
      obtain ⟨t, ht, rfl⟩ := List.mem_map.1 hs
      exact htext t ht (heq ▸ hc)
    rw [ZeroFree, String.toList_intercalate]
    exact fun hmem => Text.forall_mem_intercalate (by simp) hplain _ hmem rfl

end CodeSurvey.Path
