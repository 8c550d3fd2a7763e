-- The order of the entries of a directory: they stand in the order of their names,
-- which is that of the bytes of these, each name is there once, and whatever is
-- made, written or removed on a disk keeps it so. So every disk that was built from
-- a blank one is in order, and bringing repositories to it leaves it one.
import CodeSurvey.Proofs.Disk.Way
import CodeSurvey.Workspace
import Mathlib.Data.String.Basic

namespace CodeSurvey

/-! ## Names in the order of their bytes -/

namespace Text

def bytes (s : String) : List UInt8 := s.toUTF8.data.toList

theorem bytes_eq (s : String) : bytes s = s.toList.flatMap String.utf8EncodeChar := by
  have h : s.toUTF8 = s.toList.utf8Encode := by
    conv_lhs => rw [← String.ofList_toList (s := s)]
    exact String.toByteArray_ofList
  rw [bytes, h]
  simp [List.utf8Encode]

/-- Of two characters the earlier one has the smaller bytes, whatever comes behind. -/
theorem encode_lt {c d : Char} (h : c < d) (x y : List UInt8) :
    String.utf8EncodeChar c ++ x < String.utf8EncodeChar d ++ y := by
  have hlt : c.val.toNat < d.val.toNat := h
  have hlast : d.val.toNat < 0x110000 := by
    rcases d.valid with hlow | ⟨-, hhigh⟩
    · exact Nat.lt_trans hlow (by decide)
    · exact hhigh
  unfold String.utf8EncodeChar
  dsimp only
  generalize c.val.toNat = m at hlt
  generalize d.val.toNat = n at hlt hlast
  clear h
  -- Each of the two takes one to four bytes; the first byte tells how many.
  repeat' split
  all_goals
    simp (disch := omega) only [List.cons_append, List.nil_append, List.cons_lt_cons_iff,
      UInt8.lt_iff_toNat_lt, UInt8.toNat_ofNat', ← UInt8.toNat_inj, Nat.mod_eq_of_lt]
    omega

theorem flatMap_encode_lt {cs ds : List Char} (h : cs < ds) :
    cs.flatMap String.utf8EncodeChar < ds.flatMap String.utf8EncodeChar := by
  induction cs generalizing ds with
  | nil =>
    cases ds with
    | nil => exact absurd h (List.not_lt_nil _)
    | cons d ds =>
      obtain ⟨b, bs, hb⟩ := List.exists_cons_of_ne_nil (String.utf8EncodeChar_ne_nil (c := d))
      rw [List.flatMap_cons, hb]
      exact List.nil_lt_cons _ _
  | cons c cs ih =>
    cases ds with
    | nil => exact absurd h (List.not_lt_nil _)
    | cons d ds =>
      rw [List.flatMap_cons, List.flatMap_cons]
      rcases List.cons_lt_cons_iff.1 h with hlt | ⟨rfl, hrest⟩
      · exact encode_lt hlt _ _
      · exact List.append_left_lt (ih hrest)

/-- Texts stand in the order of their bytes. -/
theorem bytes_lt_iff {s t : String} : bytes s < bytes t ↔ s < t := by
  have hlt : ∀ {s t : String}, s < t → bytes s < bytes t := by
    intro s t h
    rw [bytes_eq, bytes_eq]
    exact flatMap_encode_lt (String.lt_iff_toList_lt.1 h)
  refine ⟨fun h => ?_, hlt⟩
  rcases lt_trichotomy s t with hst | rfl | hts
  · exact hst
  · exact absurd h (List.lt_irrefl _)
  · exact absurd h (List.lt_asymm (hlt hts))

end Text

namespace Disk

open CodeSurvey.Path (IsName)

/-! ## Trees in order -/

/-- Every directory of the tree has its entries in the order of their names, and these are
names. -/
inductive Node.Ordered : Node → Prop where
  | file (c : Content) : Ordered (.file c)
  | link (target : String) : Ordered (.link target)
  | directory {entries : List (String × Node)} (sorted : entries.Pairwise (fun a b => a.1 < b.1))
      (named : ∀ e ∈ entries, IsName e.1) (below : ∀ e ∈ entries, Ordered e.2) :
      Ordered (.directory entries)

namespace Node

variable {n x : Node} {entries : List (String × Node)} {name : String}

theorem Ordered.sorted (h : (Node.directory entries).Ordered) :
    entries.Pairwise (fun a b => a.1 < b.1) := by
  cases h
  assumption

theorem Ordered.named (h : (Node.directory entries).Ordered) : ∀ e ∈ entries, IsName e.1 := by
  cases h
  assumption

theorem Ordered.within (h : (Node.directory entries).Ordered) : ∀ e ∈ entries, e.2.Ordered := by
  cases h
  assumption

theorem ordered_empty : Node.empty.Ordered :=
  .directory .nil (fun _ he => absurd he List.not_mem_nil) (fun _ he => absurd he List.not_mem_nil)

theorem mem_of_child? (h : (Node.directory entries).child? name = some x) :
    (name, x) ∈ entries := by
  obtain ⟨e, he, hx⟩ := Option.map_eq_some_iff.1 (child?_directory entries name ▸ h)
  have hname : e.1 = name := by simpa using List.find?_some he
  rw [← hname, ← hx]
  exact List.mem_of_find?_eq_some he

/-- No name is there twice. -/
theorem Ordered.child? (h : (Node.directory entries).Ordered) {e : String × Node}
    (he : e ∈ entries) : (Node.directory entries).child? e.1 = some e.2 := by
  rw [child?_directory]
  have hsorted := h.sorted
  clear h
  induction entries with
  | nil => exact absurd he List.not_mem_nil
  | cons a rest ih =>
    obtain ⟨hfirst, hrest⟩ := List.pairwise_cons.1 hsorted
    rcases List.mem_cons.1 he with rfl | hmem
    · simp
    · have hne : a.1 ≠ e.1 := ne_of_lt (hfirst e hmem)
      rw [List.find?_cons_of_neg (by simpa using hne)]
      exact ih hmem hrest

theorem Ordered.of_child? (h : n.Ordered) (hx : n.child? name = some x) :
    IsName name ∧ x.Ordered := by
  cases n with
  | directory entries =>
    have hmem := mem_of_child? hx
    exact ⟨h.named _ hmem, h.within _ hmem⟩
  | _ => cases hx

theorem Ordered.at? (h : n.Ordered) {names : List String} (hx : n.at? names = some x) :
    (∀ s ∈ names, IsName s) ∧ x.Ordered := by
  induction names generalizing n with
  | nil =>
    obtain rfl := Option.some.inj ((at?_nil n).symm.trans hx)
    exact ⟨fun s hs => absurd hs List.not_mem_nil, h⟩
  | cons name rest ih =>
    obtain ⟨c, hc, hrest⟩ := Option.bind_eq_some_iff.1 (at?_cons n name rest ▸ hx)
    obtain ⟨hname, hordered⟩ := h.of_child? hc
    obtain ⟨hnames, hend⟩ := ih hordered hrest
    exact ⟨List.forall_mem_cons.2 ⟨hname, hnames⟩, hend⟩

/-! ## What changes keep -/

theorem mem_putEntry {e : String × Node} (he : e ∈ putEntry name x entries) :
    e = (name, x) ∨ e ∈ entries := by
  induction entries with
  | nil => exact .inl (List.mem_singleton.1 he)
  | cons a rest ih =>
    obtain ⟨k, y⟩ := a
    unfold putEntry at he
    split at he
    · rcases List.mem_cons.1 he with h | h
      · exact .inl h
      · exact .inr (List.mem_cons_of_mem _ h)
    · split at he
      · exact List.mem_cons.1 he
      · rcases List.mem_cons.1 he with h | h
        · exact .inr (h ▸ List.mem_cons_self)
        · exact (ih h).imp_right (List.mem_cons_of_mem _)

theorem sorted_putEntry (h : entries.Pairwise (fun a b => a.1 < b.1)) :
    (putEntry name x entries).Pairwise (fun a b => a.1 < b.1) := by
  induction entries with
  | nil => exact List.pairwise_singleton _ _
  | cons a rest ih =>
    obtain ⟨k, y⟩ := a
    obtain ⟨hfirst, hrest⟩ := List.pairwise_cons.1 h
    unfold putEntry
    by_cases heq : name = k
    · rw [if_pos heq]
      exact List.pairwise_cons.2 ⟨heq ▸ hfirst, hrest⟩
    · rw [if_neg heq]
      by_cases hlt : name < k
      · rw [if_pos hlt]
        refine List.pairwise_cons.2 ⟨fun e he => ?_, h⟩
        rcases List.mem_cons.1 he with rfl | hmem
        · exact hlt
        · exact lt_trans hlt (hfirst e hmem)
      · rw [if_neg hlt]
        refine List.pairwise_cons.2 ⟨fun e he => ?_, ih hrest⟩
        rcases mem_putEntry he with rfl | hmem
        · exact lt_of_le_of_ne (not_lt.1 hlt) (Ne.symm heq)
        · exact hfirst e hmem

theorem Ordered.putEntry (h : (Node.directory entries).Ordered) (hname : IsName name)
    (hx : x.Ordered) : (Node.directory (putEntry name x entries)).Ordered := by
  refine .directory (sorted_putEntry h.sorted) (fun e he => ?_) (fun e he => ?_)
  · rcases mem_putEntry he with rfl | hmem
    · exact hname
    · exact h.named e hmem
  · rcases mem_putEntry he with rfl | hmem
    · exact hx
    · exact h.within e hmem

theorem Ordered.put (h : n.Ordered) (hx : x.Ordered) {names : List String}
    (hnames : ∀ s ∈ names, IsName s) : (n.put x names).Ordered := by
  induction names generalizing n with
  | nil => exact hx
  | cons name rest ih =>
    obtain ⟨hname, hrest⟩ := List.forall_mem_cons.1 hnames
    cases n with
    | directory entries =>
      by_cases hend : rest = []
      · rw [hend, put_name]
        exact h.putEntry hname hx
      · rw [put_below x hend]
        split
        · rename_i c hc
          exact h.putEntry hname (ih (h.of_child? hc).2 hrest)
        · exact h
    | _ => exact h

theorem Ordered.drop (h : n.Ordered) (names : List String) : (n.drop names).Ordered := by
  induction names generalizing n with
  | nil => exact h
  | cons name rest ih =>
    cases n with
    | directory entries =>
      by_cases hend : rest = []
      · rw [hend, drop_name]
        have hmem : ∀ e ∈ dropEntry name entries, e ∈ entries := fun e he =>
          List.mem_of_mem_filter he
        exact .directory (h.sorted.filter _) (fun e he => h.named e (hmem e he))
          (fun e he => h.within e (hmem e he))
      · rw [drop_below hend]
        split
        · rename_i c hc
          exact h.putEntry (h.of_child? hc).1 (ih (h.of_child? hc).2)
        · exact h
    | _ => exact h

end Node

/-! ## Disks in order -/

/-- The names on the way to a place. -/
def Place.names : Place → List String
  | taken names => names
  | free directory name => directory ++ [name]

/-- Every directory of the disk is in order, and one works at a row of names. -/
structure Ordered (d : Disk) : Prop where
  root : d.root.Ordered
  working : ∀ s ∈ d.workingDirectory, IsName s

theorem ordered_blank : blank.Ordered :=
  ⟨Node.ordered_empty, fun _ hs => absurd hs List.not_mem_nil⟩

/-- The pieces of a path lead over names, however many links are followed on the way. -/
theorem follow_named {root : Node} {last : Bool} {links : Nat} {here todo : List String}
    {place : Place} (hhere : ∀ s ∈ here, IsName s) (htodo : ∀ s ∈ todo, '/' ∉ s.toList)
    (h : follow root last links here todo = .ok place) : ∀ s ∈ place.names, IsName s := by
  induction links using Nat.strongRecOn generalizing here todo with
  | ind links ihlinks =>
    induction todo generalizing here with
    | nil =>
      rw [follow_nil] at h
      obtain rfl := Except.ok.inj h
      exact hhere
    | cons name rest ih =>
      obtain ⟨hslash, hrest⟩ := List.forall_mem_cons.1 htodo
      rw [follow_piece] at h
      split at h
      · split at h
        · exact ih hhere hrest h
        rename_i hstays
        split at h
        · exact ih (fun s hs => hhere s (List.mem_of_mem_dropLast hs)) hrest h
        rename_i hup
        have hname : IsName name := by
          have : name ≠ "" ∧ name ≠ "." := by simpa using hstays
          exact ⟨this.1, this.2, hup, hslash⟩
        have hnext : ∀ s ∈ here ++ [name], IsName s := by
          intro s hs
          rcases List.mem_append.1 hs with hs | hs
          · exact hhere s hs
          · exact List.mem_singleton.1 hs ▸ hname
        split at h
        · cases h
        split at h
        · split at h
          · obtain rfl := Except.ok.inj h
            exact hnext
          · cases h
        · rename_i target _
          split at h
          · obtain rfl := Except.ok.inj h
            exact hnext
          · split at h
            · cases h
            · rename_i left
              refine ihlinks left (Nat.lt_succ_self left) (fun s hs => ?_) (fun s hs => ?_) h
              · split at hs
                · exact absurd hs List.not_mem_nil
                · exact hhere s hs
              · rcases List.mem_append.1 hs with hs | hs
                · exact (Path.mem_pieces hs).1
                · exact hrest s hs
        · exact ih hnext hrest h
      · cases h

namespace Ordered

variable {d d' : Disk} {path : String}

theorem place (h : d.Ordered) {last : Bool} {place : Place}
    (hplace : d.place last path = .ok place) : ∀ s ∈ place.names, IsName s := by
  unfold Disk.place at hplace
  split at hplace
  · cases hplace
  · split at hplace
    · cases hplace
    · refine follow_named (fun s hs => ?_) (fun s hs => (Path.mem_pieces hs).1) hplace
      split at hs
      · exact absurd hs List.not_mem_nil
      · exact h.working s hs

theorem put (h : d.Ordered) {x : Node} (hx : x.Ordered) {names : List String}
    (hnames : ∀ s ∈ names, IsName s) : (d.put x names).Ordered :=
  ⟨h.root.put hx hnames, h.working⟩

theorem makeDirectory (h : d.Ordered) (hd : d.makeDirectory path = .ok d') : d'.Ordered := by
  obtain ⟨directory, name, hplace, rfl⟩ := makeDirectory_ok hd
  exact h.put Node.ordered_empty (h.place hplace)

theorem makeLink (h : d.Ordered) {target : String} (hd : d.makeLink target path = .ok d') :
    d'.Ordered := by
  unfold Disk.makeLink at hd
  cases hplace : d.place false path with
  | error i => simp [hplace, bind, Except.bind] at hd
  | ok place =>
    have hnames := h.place hplace
    cases place with
    | taken names => simp [hplace, bind, Except.bind, throw, throwThe, MonadExceptOf.throw] at hd
    | free directory name =>
      obtain rfl : d.put (.link target) (directory ++ [name]) = d' := by
        simpa [hplace, bind, Except.bind, pure, Except.pure] using hd
      exact h.put (.link target) hnames

theorem write (h : d.Ordered) {c : Content} (hd : d.write c path = .ok d') : d'.Ordered := by
  unfold Disk.write at hd
  cases hplace : d.place true path with
  | error i => simp [hplace, bind, Except.bind] at hd
  | ok place =>
    have hnames := h.place hplace
    cases place with
    | taken names =>
      have hput : d.put (.file c) names = d' := by
        cases hdir : (d.root.at? names).any Node.isDirectory with
        | true => simp [hplace, hdir, bind, Except.bind, throw, throwThe, MonadExceptOf.throw] at hd
        | false => simpa [hplace, hdir, bind, Except.bind, pure, Except.pure] using hd
      exact hput ▸ h.put (.file c) hnames
    | free directory name =>
      obtain rfl : d.put (.file c) (directory ++ [name]) = d' := by
        simpa [hplace, bind, Except.bind, pure, Except.pure] using hd
      exact h.put (.file c) hnames

theorem remove (h : d.Ordered) (hd : d.remove path = .ok d') : d'.Ordered := by
  unfold Disk.remove at hd
  cases hplace : d.locate false path with
  | error i => simp [hplace, bind, Except.bind] at hd
  | ok names =>
    obtain rfl : { d with root := d.root.drop names } = d' := by
      simpa [hplace, bind, Except.bind, pure, Except.pure] using hd
    exact ⟨h.root.drop names, h.working⟩

/-- Making a directory and all that are missing above it keeps the order, also where it does not
get to the end. -/
theorem makeParts (h : d.Ordered) (ps : List Path.Part) : (d.makeParts ps).2.Ordered := by
  induction ps with
  | nil => exact h
  | cons p above ih =>
    have hunmade : ∀ (e : Disk) (path : String) (i : Issue), e.Ordered →
        (e.unmade path i).2.Ordered := by
      intro e path i he
      unfold Disk.unmade
      split <;> exact he
    unfold Disk.makeParts
    dsimp only
    split
    · rename_i hbuilt
      exact h.makeDirectory hbuilt
    · split
      · rename_i heq
        rw [heq] at ih
        exact ih
      · rename_i e heq
        have he : e.Ordered := by
          rw [heq] at ih
          exact ih
        split
        · rename_i hbuilt
          exact he.makeDirectory hbuilt
        · exact hunmade e _ _ he
    · exact hunmade d _ _ h

/-- So is what a path leads to. -/
theorem entries (h : d.Ordered) {entries : List (String × Node)}
    (hentries : d.entries path = .ok entries) : (Node.directory entries).Ordered := by
  unfold Disk.entries Disk.node at hentries
  cases hlocate : d.locate true path with
  | error i => simp [hlocate, bind, Except.bind] at hentries
  | ok names =>
    cases hat : d.root.at? names with
    | none =>
      simp [hlocate, hat, bind, Except.bind, throw, throwThe, MonadExceptOf.throw] at hentries
    | some n =>
      cases n with
      | directory es =>
        obtain rfl : es = entries := by
          simpa [hlocate, hat, bind, Except.bind, pure, Except.pure] using hentries
        exact (h.root.at? hat).2
      | _ =>
        simp [hlocate, hat, bind, Except.bind, pure, Except.pure, throw, throwThe,
          MonadExceptOf.throw] at hentries

end Ordered

/-! ## Disks that were built -/

/-- A disk that came from a blank one by changes, and by going to work in a directory. Making a
directory may have made those above it and failed then. -/
inductive Built : Disk → Prop where
  | blank : Built blank
  | makeAll {d : Disk} (path : String) : Built d → Built (d.makeAll path).2
  | makeLink {d d' : Disk} {target path : String} :
      Built d → d.makeLink target path = .ok d' → Built d'
  | write {d d' : Disk} {c : Content} {path : String} : Built d → d.write c path = .ok d' → Built d'
  | remove {d d' : Disk} {path : String} : Built d → d.remove path = .ok d' → Built d'
  | work {d : Disk} {names : List String} :
      Built d → (∀ s ∈ names, IsName s) → Built { d with workingDirectory := names }

theorem Built.ordered {d : Disk} (h : d.Built) : d.Ordered := by
  induction h with
  | blank => exact ordered_blank
  | makeAll path _ ih => exact ih.makeParts _
  | makeLink _ hlink ih => exact ih.makeLink hlink
  | write _ hwrite ih => exact ih.write hwrite
  | remove _ hremove ih => exact ih.remove hremove
  | work _ hnames ih => exact ⟨ih.root, hnames⟩

theorem Built.removeDirectory {d d' : Disk} {path : String} (h : d.Built)
    (hremove : d.removeDirectory path = .ok d') : d'.Built := by
  suffices hdrop : d.remove path = .ok d' from h.remove hdrop
  unfold Disk.removeDirectory at hremove
  cases hlocate : d.locate false path with
  | error i => simp [hlocate, bind, Except.bind] at hremove
  | ok names =>
    simp only [hlocate, bind, Except.bind] at hremove
    split at hremove
    · cases hremove
    · exact hremove

/-! ## Operations on disks -/

/-- The operation leaves a disk that was built, whether it answers or fails. -/
def Builds {α : Type} (c : Command Disk α) : Prop := ∀ d, d.Built → (c d).2.Built

namespace Builds

variable {α β : Type}

theorem answer (a : α) : Builds (.answer a) := fun _ h => h

theorem andThen {x : Command Disk α} {f : α → Command Disk β} (hx : Builds x)
    (hf : ∀ a, Builds (f a)) : Builds (x.andThen f) := by
  intro d h
  have hleft := hx d h
  unfold Command.andThen
  rcases hrun : x d with ⟨r, d'⟩
  rw [hrun] at hleft
  cases r with
  | ok a => exact hf a d' hleft
  | error e => exact hleft

theorem followedBy {x : Command Disk Unit} {y : Command Disk α} (hx : Builds x) (hy : Builds y) :
    Builds (x.followedBy y) :=
  hx.andThen fun _ => hy

theorem each {f : α → Command Disk Unit} (hf : ∀ a, Builds (f a)) (as : List α) :
    Builds (.each f as) := by
  induction as with
  | nil => exact answer ()
  | cons a as ih => exact (hf a).followedBy ih

theorem ensureDirectories (path : String) : Builds (ensureDirectories path) := by
  intro d h
  have hbuilt := h.makeAll path
  unfold Disk.ensureDirectories
  rcases hrun : d.makeAll path with ⟨r, d'⟩
  rw [hrun] at hbuilt
  cases r with
  | ok _ => exact hbuilt
  | error i => exact hbuilt

theorem change {f : Disk → Except Issue Disk} (hf : ∀ d d', d.Built → f d = .ok d' → d'.Built) :
    Builds (change f) := by
  intro d h
  unfold Disk.change
  cases hd : f d with
  | ok d' => exact hf d d' h hd
  | error i => exact h

theorem unpackOne (target : String) (p : Placed) : Builds (unpackOne target p) := by
  unfold Disk.unpackOne
  dsimp only
  split
  · exact answer ()
  · split
    · exact ensureDirectories _
    · exact (ensureDirectories _).followedBy (change fun _ _ h hwrite => h.write hwrite)

theorem unpack (path target : String) : Builds (unpack path target) := by
  have hask : Builds (.ask fun d => (archiveAt path d).bind plan) := fun _ h => h
  exact hask.andThen fun placed => each (unpackOne target) placed

theorem prepare (path : String) : Builds (Workspace.prepare path) := by
  intro d h
  unfold Workspace.prepare
  cases hremove : d.removeDirectory path with
  | ok d' => exact ensureDirectories path d' (h.removeDirectory hremove)
  | error i =>
    cases i with
    | noEntry => exact ensureDirectories path d h
    | _ => exact h

theorem fill (path : String) {fetch : Command Disk Unit} (hfetch : Builds fetch) :
    Builds (Workspace.fill path fetch) := by
  intro d h
  have hfetched := hfetch d h
  unfold Workspace.fill
  rcases hrun : fetch d with ⟨r, d'⟩
  rw [hrun] at hfetched
  cases r with
  | ok _ => exact hfetched
  | error f =>
    dsimp only
    cases hremove : d'.removeDirectory path with
    | ok d'' => exact hfetched.removeDirectory hremove
    | error i => exact hfetched

/-- Bringing a repository to a directory leaves a disk that was built, if cloning does. -/
theorem materialize {w : Workspace}
    (hclone : ∀ url reference path, Builds (w.clone url reference path)) (repository : String)
    (source : RepositorySource) : Builds (w.materialize repository source) := by
  have hinto : ∀ {fetch : String → Command Disk Unit}, (∀ path, Builds (fetch path)) →
      Builds ((Workspace.prepare (w.destination repository)).followedBy
        (Workspace.fill (w.destination repository) (fetch (w.destination repository)))) :=
    fun hfetch => (prepare _).followedBy (fill _ (hfetch _))
  cases source with
  | directory path => exact fun _ h => h
  | git url reference => exact hinto (hclone url reference)
  | archive path => exact hinto (unpack path)

end Builds

end Disk

end CodeSurvey
