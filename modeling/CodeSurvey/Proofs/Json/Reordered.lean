-- Records read from values whose objects have their entries in another order.
-- Entries are found by their keys, so a record comes back as long as each of its
-- fields has one entry, wherever that stands and whatever else is there. One such
-- order is that of the keys, in which a value comes out of its own text.
import CodeSurvey.Json.Basic
import CodeSurvey.Json.Reader
import CodeSurvey.Proofs.Store.Rows
import Mathlib.Data.List.Nodup

namespace CodeSurvey.Json

/-! ## Orders of entries -/

/-- The second value is the first one, but for the order of the entries in its objects. -/
inductive Reordered : Json → Json → Prop
  | same (v : Json) : Reordered v v
  | array {xs ys : List Json} (items : List.Forall₂ Reordered xs ys) :
      Reordered (.array xs) (.array ys)
  | object {es gs : List (String × Json)} (keys : (gs.map (·.1)).Perm (es.map (·.1)))
      (values : ∀ k v w, (k, v) ∈ es → (k, w) ∈ gs → Reordered v w) :
      Reordered (.object es) (.object gs)

/-- The entries of an object, each key once, and the same entries in another order. -/
structure Shuffled (es gs : List (String × Json)) : Prop where
  distinct : (es.map (·.1)).Nodup
  keys : (gs.map (·.1)).Perm (es.map (·.1))
  values : ∀ k v w, (k, v) ∈ es → (k, w) ∈ gs → Reordered v w

/-- The key has this value, and no other. -/
def Holds (gs : List (String × Json)) (key : String) (w : Json) : Prop :=
  (key, w) ∈ gs ∧ ∀ v, (key, v) ∈ gs → v = w

def Lacks (gs : List (String × Json)) (key : String) : Prop := ∀ v, (key, v) ∉ gs

variable {es gs : List (String × Json)} {key name : String} {v w : Json}

theorem eq_of_mem (h : (gs.map (·.1)).Nodup) (hv : (key, v) ∈ gs) (hw : (key, w) ∈ gs) : v = w :=
  congrArg Prod.snd (List.inj_on_of_nodup_map h hv hw rfl)

theorem Shuffled.refl (h : (es.map (·.1)).Nodup) : Shuffled es es where
  distinct := h
  keys := .refl _
  values := fun _ v _ hv hw => eq_of_mem h hv hw ▸ .same v

theorem Reordered.shuffled (h : Reordered (.object es) w) (hdistinct : (es.map (·.1)).Nodup) :
    ∃ gs, w = .object gs ∧ Shuffled es gs := by
  cases h with
  | same => exact ⟨es, rfl, .refl hdistinct⟩
  | object keys values => exact ⟨_, rfl, hdistinct, keys, values⟩

theorem holds_of_mem (h : (gs.map (·.1)).Nodup) (hmem : (key, w) ∈ gs) : Holds gs key w :=
  ⟨hmem, fun _ hv => eq_of_mem h hv hmem⟩

theorem Shuffled.holds (h : Shuffled es gs) (hmem : (key, v) ∈ es) :
    ∃ w, Holds gs key w ∧ Reordered v w := by
  have hkey : key ∈ gs.map (·.1) := h.keys.mem_iff.2 (List.mem_map_of_mem hmem)
  obtain ⟨⟨k, w⟩, hw, rfl⟩ := List.mem_map.1 hkey
  exact ⟨w, holds_of_mem (h.keys.nodup_iff.2 h.distinct) hw, h.values k v w hmem hw⟩

theorem Shuffled.lacks (h : Shuffled es gs) (hkey : key ∉ es.map (·.1)) : Lacks gs key :=
  fun _ hmem => hkey (h.keys.mem_iff.1 (List.mem_map_of_mem hmem))

theorem Holds.lookup (h : Holds gs key w) : lookup key gs = some w := by
  obtain ⟨hmem, hone⟩ := h
  unfold Json.lookup
  cases hfind : gs.find? (fun e => e.1 == key) with
  | none => exact absurd (List.find?_eq_none.1 hfind _ hmem) (by simp)
  | some e =>
    have hkey : e.1 = key := by simpa using List.find?_some hfind
    have hvalue : e.2 = w := hone e.2 (hkey ▸ List.mem_of_find?_eq_some hfind)
    rw [Option.map_some, hvalue]

theorem Lacks.lookup (h : Lacks gs key) : lookup key gs = none := by
  have hfind : gs.find? (fun e => e.1 == key) = none := by
    refine List.find?_eq_none.2 fun e he => ?_
    have hne : e.1 ≠ key := fun hkey => h e.2 (hkey ▸ he)
    simpa using hne
  rw [Json.lookup, hfind]
  rfl

/-- Entries with other keys do not matter. -/
theorem holds_congr (h : ∀ u, (key, u) ∈ es ↔ (key, u) ∈ gs) : Holds es key w ↔ Holds gs key w :=
  and_congr (h w) (forall_congr' fun u => imp_congr_left (h u))

theorem lacks_congr (h : ∀ u, (key, u) ∈ es ↔ (key, u) ∈ gs) : Lacks es key ↔ Lacks gs key :=
  forall_congr' fun u => not_congr (h u)

/-! ## Extras -/

theorem mem_put {u : Json} (hkey : key ≠ name) :
    (key, u) ∈ put name v gs ↔ (key, u) ∈ gs := by
  have hother : (key, u) ≠ (name, v) := fun h => hkey (congrArg Prod.fst h)
  induction gs with
  | nil => simpa [put] using fun h : key = name => absurd h hkey
  | cons e rest ih =>
    obtain ⟨k, x⟩ := e
    unfold put
    by_cases hk : k = name
    · have hfirst : (key, u) ≠ (k, x) := fun h => hkey ((congrArg Prod.fst h).trans hk)
      rw [if_pos (by simpa using hk), List.mem_cons, List.mem_cons]
      simp only [hother, hfirst, false_or]
    · rw [if_neg (by simpa using hk)]
      split
      · rw [List.mem_cons]
        simp only [hother, false_or]
      · rw [List.mem_cons, List.mem_cons]
        exact or_congr_right ih

/-- What is put under other keys leaves the entries of a key. -/
theorem mem_foldl_put {u : Json} {extras : List (String × Json)} (hkey : ∀ e ∈ extras, key ≠ e.1) :
    (key, u) ∈ extras.foldl (fun acc e => put e.1 e.2 acc) gs ↔ (key, u) ∈ gs := by
  induction extras generalizing gs with
  | nil => rfl
  | cons e extras ih =>
    obtain ⟨hfirst, hrest⟩ := List.forall_mem_cons.1 hkey
    rw [List.foldl_cons, ih hrest, mem_put hfirst]

/-- An object takes the entries of other objects and keeps those under keys that these lack. -/
theorem foldl_merge (gs : List (String × Json)) (extras : List (List (String × Json))) :
    ∃ all, (extras.map Json.object).foldl merge (.object gs) = .object all ∧
      ∀ key, (∀ es ∈ extras, ∀ e ∈ es, key ≠ e.1) → ∀ u, (key, u) ∈ all ↔ (key, u) ∈ gs := by
  induction extras generalizing gs with
  | nil => exact ⟨gs, rfl, fun _ _ _ => Iff.rfl⟩
  | cons es extras ih =>
    obtain ⟨all, hall, hkeys⟩ := ih (es.foldl (fun acc e => put e.1 e.2 acc) gs)
    refine ⟨all, hall, fun key hkey u => ?_⟩
    obtain ⟨hfirst, hrest⟩ := List.forall_mem_cons.1 hkey
    rw [hkeys key hrest u, mem_foldl_put hfirst]

/-! ## Values -/

/-- The value is read as `a`, in whatever order its entries stand. -/
def ReadBack {α : Type} (read : Reads α) (v : Json) (a : α) : Prop :=
  ∀ w, Reordered v w → read w = .ok a

namespace ReadBack

variable {α β : Type} {read : Reads α} {a : α}

theorem text (s : String) : ReadBack readText (.text s) s := by
  rintro _ ⟨⟩
  rfl

theorem path (s : String) : ReadBack readPath (.text s) s := by
  rintro _ ⟨⟩
  rfl

theorem bool (b : Bool) : ReadBack readBool (.bool b) b := by
  rintro _ ⟨⟩
  rfl

theorem named {known : List (String × α)} {s : String} (h : readName known (.text s) = .ok a) :
    ReadBack (readName known) (.text s) a := by
  rintro _ ⟨⟩
  exact h

theorem readNat_nat (expected : String) {bits n : Nat} (h : n < Text.wordSize bits) :
    readNat expected bits (nat n) = .ok n := by
  have hrange : (0 : Int) ≤ n ∧ (n : Int) ≤ (Text.wordSize bits : Nat) - 1 := by omega
  simp only [readNat, nat, int, readInt, if_pos hrange, Functor.map, Except.map, Int.toNat_natCast]

theorem uint8 (n : UInt8) : ReadBack readUInt8 (nat n.toNat) n := by
  rintro _ ⟨⟩
  rw [readUInt8, readNat_nat "u8" n.toNat_lt]
  exact congrArg Except.ok UInt8.ofNat_toNat

theorem uint32 (n : UInt32) : ReadBack readUInt32 (nat n.toNat) n := by
  rintro _ ⟨⟩
  rw [readUInt32, readNat_nat "u32" n.toNat_lt]
  exact congrArg Except.ok UInt32.ofNat_toNat

theorem uint64 (n : UInt64) : ReadBack readUInt64 (nat n.toNat) n := by
  rintro _ ⟨⟩
  rw [readUInt64, readNat_nat "u64" n.toNat_lt]
  exact congrArg Except.ok UInt64.ofNat_toNat

theorem count (n : UInt64) : ReadBack readCount (nat n.toNat) n := by
  rintro _ ⟨⟩
  rw [readCount, readNat_nat "usize" n.toNat_lt]
  exact congrArg Except.ok UInt64.ofNat_toNat

theorem int64 (n : Int64) : ReadBack readInt64 (int n.toInt) n := by
  rintro _ ⟨⟩
  have hrange : -(Text.wordSize 63 : Int) ≤ n.toInt ∧ n.toInt ≤ (Text.wordSize 63 : Nat) - 1 :=
    ⟨n.le_toInt, Int.le_sub_one_of_lt n.toInt_lt⟩
  simp only [readInt64, int, readInt, if_pos hrange, Functor.map, Except.map, Int64.ofInt_toInt]

/-- What may lack is null or there, and nothing that is there is null. -/
theorem option {write : α → Json} {o : Option α} (hnull : ∀ a, write a ≠ .null)
    (h : ∀ a ∈ o, ReadBack read (write a) a) : ReadBack (readOption read) (orNull write o) o := by
  intro w hw
  cases o with
  | none =>
    cases hw
    rfl
  | some a =>
    have hread : read w = .ok a := h a rfl w hw
    have hw' : w ≠ .null := by
      rintro rfl
      refine hnull a ?_
      change Reordered (write a) .null at hw
      generalize write a = x at hw
      cases hw
      rfl
    unfold readOption
    split
    · exact absurd rfl hw'
    · rw [hread]
      rfl

theorem list {write : α → Json} {xs : List α} (h : ∀ x ∈ xs, ReadBack read (write x) x) :
    ReadBack (readList read) (.array (xs.map write)) xs := by
  have hlist : ∀ ys, List.Forall₂ Reordered (xs.map write) ys → ys.mapM read = .ok xs := by
    intro ys hys
    refine mapM_eq_ok ?_
    rw [List.forall₂_map_left_iff] at hys
    induction hys with
    | nil => exact .nil
    | @cons x y xs ys hy _ ih =>
      obtain ⟨hx, hxs⟩ := List.forall_mem_cons.1 h
      exact .cons (hx y hy) (ih hxs)
  intro w hw
  cases hw with
  | same => exact hlist _ (List.forall₂_same.2 fun v _ => .same v)
  | array items => exact hlist _ items

end ReadBack

/-! ## Records -/

/-- The fields find their entries and give the record. -/
structure Takes {α : Type} (f : Fields α) (gs : List (String × Json)) (a : α) : Prop where
  found : f.fromEntries gs = .ok a
  passed : ∀ c ∈ f.checks, ∀ w, (c.1, w) ∈ gs → c.2 w = .ok ()

namespace Takes

variable {α β : Type} {a : α} {read : Reads α} {absent short : Option α}

theorem holds (h : Holds gs name w) (hread : read w = .ok a) :
    Takes (field name read absent short) gs a where
  found := by
    simp only [field, h.lookup]
    exact hread
  passed := by
    intro c hc u hu
    obtain rfl := List.mem_singleton.1 hc
    rw [h.2 u hu]
    change (fun _ => ()) <$> read w = .ok ()
    rw [hread]
    rfl

theorem lacks (h : Lacks gs name) : Takes (field name read (some a) short) gs a where
  found := by simp only [field, h.lookup]
  passed := by
    intro c hc u hu
    obtain rfl := List.mem_singleton.1 hc
    exact absurd hu (h u)

theorem seq {f : Fields (α → β)} {g : α → β} {x : Fields α} (hf : Takes f gs g)
    (hx : Takes x gs a) : Takes (f <*> x) gs (g a) where
  found := by
    change (f.seq x).fromEntries gs = .ok (g a)
    simp only [Fields.seq, hf.found, hx.found, bind, Except.bind]
  passed := fun c hc => (List.mem_append.1 hc).elim (hf.passed c) (hx.passed c)

theorem map {x : Fields α} (g : α → β) (hx : Takes x gs a) : Takes (g <$> x) gs (g a) :=
  seq (f := Fields.pure g) ⟨rfl, fun _ hc => absurd hc List.not_mem_nil⟩ hx

theorem ofEntries {f : Fields α} (h : Takes f gs a) : f.ofEntries gs = .ok a := by
  have hcheck : ∀ rest, (∀ e ∈ rest, e ∈ gs) → f.check rest = .ok () := by
    intro rest hrest
    induction rest with
    | nil => rfl
    | cons e rest ih =>
      obtain ⟨hfirst, hrest⟩ := List.forall_mem_cons.1 hrest
      unfold Fields.check
      split
      · rename_i name test hfind
        have hname : name = e.1 := by simpa using List.find?_some hfind
        have htest : test e.2 = .ok () :=
          h.passed (name, test) (List.mem_of_find?_eq_some hfind) e.2 (hname ▸ hfirst)
        rw [htest]
        exact ih hrest
      · exact ih hrest
  unfold Fields.ofEntries
  rw [hcheck gs fun _ he => he]
  exact h.found

end Takes

variable {α : Type} {a : α} {read : Reads α} {absent short : Option α}

/-- A field is read from its entry, wherever that stands now. -/
theorem Shuffled.field (h : Shuffled es gs) (hmem : (name, v) ∈ es) (hread : ReadBack read v a) :
    Takes (Json.field name read absent short) gs a := by
  obtain ⟨w, hw, hreordered⟩ := h.holds hmem
  exact .holds hw (hread w hreordered)

/-- A field that is left out when there is nothing to say. -/
theorem Shuffled.defaulted (h : Shuffled es gs) {o : Option String}
    (hsome : ∀ s ∈ o, (name, .text s) ∈ es) (hnone : o = none → name ∉ es.map (·.1)) :
    Takes (Json.defaulted name (readOption readText) none) gs o := by
  cases o with
  | none => exact .lacks (h.lacks (hnone rfl))
  | some s =>
    have hread : ReadBack (readOption readText) (orNull .text (some s)) (some s) :=
      .option (by simp) fun t _ => .text t
    exact h.field (hsome s rfl) hread

/-- A record is read back from an object when its fields find their entries in any order. -/
theorem ReadBack.record {f : Fields α} {title : String} (hdistinct : (es.map (·.1)).Nodup)
    (h : ∀ gs, Shuffled es gs → Takes f gs a) : ReadBack (f.read title) (.object es) a := by
  intro w hw
  obtain ⟨gs, rfl, hshuffled⟩ := hw.shuffled hdistinct
  exact (h gs hshuffled).ofEntries

/-! ## Values in texts -/

/-- The parts of the value nest at most `n` deep, its numbers are whole ones that a word holds, and
each key of an object stands there once. -/
inductive Plain : Nat → Json → Prop
  | null {n : Nat} : Plain n .null
  | bool {n : Nat} (b : Bool) : Plain n (.bool b)
  | text {n : Nat} (s : String) : Plain n (.text s)
  | int {n : Nat} {m : Int} (low : -(Text.wordSize 63 : Nat) ≤ m)
      (high : m < (Text.wordSize 64 : Nat)) : Plain n (int m)
  | array {n : Nat} {items : List Json} (parts : ∀ v ∈ items, Plain n v) :
      Plain (n + 1) (.array items)
  | object {n : Nat} {es : List (String × Json)} (distinct : (es.map (·.1)).Nodup)
      (parts : ∀ e ∈ es, Plain n e.2) : Plain (n + 1) (.object es)

namespace Plain

variable {n : Nat}

attribute [simp] null bool text

theorem nat_of_lt {k : Nat} (h : k < Text.wordSize 64) : Plain n (nat k) :=
  .int (by omega) (by exact_mod_cast h)

@[simp] theorem nat_uint8 (k : UInt8) : Plain n (nat k.toNat) :=
  nat_of_lt (Nat.lt_of_lt_of_le k.toNat_lt (by decide))

@[simp] theorem nat_uint32 (k : UInt32) : Plain n (nat k.toNat) :=
  nat_of_lt (Nat.lt_of_lt_of_le k.toNat_lt (by decide))

@[simp] theorem nat_uint64 (k : UInt64) : Plain n (nat k.toNat) := nat_of_lt k.toNat_lt

@[simp] theorem int_int64 (k : Int64) : Plain n (Json.int k.toInt) :=
  .int k.le_toInt (Int.lt_of_lt_of_le k.toInt_lt (by decide))

@[simp] theorem orNull_iff {α : Type} {write : α → Json} {o : Option α} :
    Plain n (orNull write o) ↔ ∀ a ∈ o, Plain n (write a) := by
  cases o <;> simp [orNull]

@[simp] theorem array_iff {items : List Json} :
    Plain (n + 1) (.array items) ↔ ∀ v ∈ items, Plain n v := by
  refine ⟨fun h => ?_, .array⟩
  cases h with
  | array parts => exact parts

@[simp] theorem object_iff {es : List (String × Json)} :
    Plain (n + 1) (.object es) ↔ (es.map (·.1)).Nodup ∧ ∀ e ∈ es, Plain n e.2 := by
  refine ⟨fun h => ?_, fun h => .object h.1 h.2⟩
  cases h with
  | object distinct parts => exact ⟨distinct, parts⟩

end Plain

theorem chars_int (n : Int) :
    chars (int n) = (if n < 0 then ['-'] else []) ++ natText n.natAbs := by
  simp only [int, chars, Number.chars, intText]
  split <;> rfl

theorem Plain.startsItem {n : Nat} (h : Plain n v) : StartsItem v.chars := by
  cases h with
  | null => exact ⟨'n', _, rfl, by decide, by decide⟩
  | bool b => cases b <;> exact ⟨_, _, rfl, by decide, by decide⟩
  | text s => exact ⟨'"', _, rfl, by decide, by decide⟩
  | @int _ m =>
    rw [chars_int]
    split
    · exact ⟨'-', _, rfl, by decide, by decide⟩
    · obtain ⟨d, t, hd, hdigit⟩ := exists_natText_cons m.natAbs
      exact ⟨d, t, hd, isGap_of_isDigit hdigit, by rintro rfl; exact absurd hdigit (by decide)⟩
  | array => exact ⟨'[', _, rfl, by decide, by decide⟩
  | object => exact ⟨'\x7b', _, rfl, by decide, by decide⟩

/-! ### Sorted entries -/

theorem put_perm (v : Json) (hkey : key ∉ gs.map (·.1)) : (put key v gs).Perm ((key, v) :: gs) := by
  induction gs with
  | nil => exact .refl _
  | cons e gs ih =>
    obtain ⟨k, w⟩ := e
    obtain ⟨hne, hrest⟩ := not_or.1 (List.mem_cons.not.1 hkey)
    unfold put
    rw [if_neg (by simpa using Ne.symm hne)]
    split
    · exact .refl _
    · exact ((ih hrest).cons _).trans (.swap _ _ _)

/-- Entries of different keys that are put one by one are those entries, in some order. -/
theorem foldl_put_perm (h : ((es ++ gs).map (·.1)).Nodup) :
    (es.foldl (fun acc e => put e.1 e.2 acc) gs).Perm (es ++ gs) := by
  induction es generalizing gs with
  | nil => exact .refl _
  | cons e es ih =>
    have hsame : (es ++ (e :: gs)).Perm (e :: es ++ gs) := List.perm_middle
    have hnodup : ((es ++ (e :: gs)).map (·.1)).Nodup := (hsame.map _).nodup_iff.2 h
    have hkey : e.1 ∉ gs.map (·.1) := by
      rw [List.map_append, List.map_cons] at hnodup
      exact (List.nodup_cons.1 hnodup.of_append_right).1
    have hput : (es ++ put e.1 e.2 gs).Perm (es ++ (e :: gs)) := (put_perm e.2 hkey).append_left es
    rw [List.foldl_cons]
    exact (ih ((hput.map _).nodup_iff.2 hnodup)).trans (hput.trans hsame)

/-- Entries side by side with reordered ones are reordered once these are sorted. -/
theorem reordered_sorted (hdistinct : (es.map (·.1)).Nodup)
    (h : List.Forall₂ (fun e g => e.1 = g.1 ∧ Reordered e.2 g.2) es gs) :
    Reordered (.object es) (.object (gs.foldl (fun acc g => put g.1 g.2 acc) [])) := by
  have hkeys : es.map (·.1) = gs.map (·.1) := by
    rw [← List.forall₂_eq_eq_eq, List.forall₂_map_left_iff, List.forall₂_map_right_iff]
    exact h.imp fun _ _ he => he.1
  have hperm : (gs.foldl (fun acc g => put g.1 g.2 acc) []).Perm (gs ++ []) :=
    foldl_put_perm (by simpa [hkeys] using hdistinct)
  rw [List.append_nil] at hperm
  refine .object (hkeys ▸ hperm.map _) fun k v w hv hw => ?_
  obtain ⟨⟨_, u⟩, hu, rfl, hvalue⟩ := exists_of_mem_left h hv
  obtain rfl : u = w := eq_of_mem (hkeys ▸ hdistinct) hu (hperm.mem_iff.1 hw)
  exact hvalue

/-! ### Reading -/

theorem decodeValue_text (left : Nat) (s : String) :
    Decodes (decodeValue (left + 1)) (chars (.text s)) (.text s) := by
  intro rest place _
  obtain ⟨p, hp⟩ := readStringBody_chars s rest (place.next '"')
  refine ⟨p, ?_⟩
  rw [chars, stringText_append, decodeValue, Cursor.token_cons _ _ (by decide)]
  simp only [bind, Except.bind, Cursor.next, hp]
  rfl

theorem decodeValue_int (left : Nat) {n : Int} (hlow : -(Text.wordSize 63 : Nat) ≤ n)
    (hhigh : n < (Text.wordSize 64 : Nat)) :
    Decodes (decodeValue (left + 1)) (chars (int n)) (int n) := by
  intro rest place hc
  rw [chars_int]
  by_cases hn : n < 0
  · obtain ⟨p, hp⟩ := readNumber_natAbs hlow hhigh hc (place.next '-')
    refine ⟨p, ?_⟩
    rw [decide_eq_true hn] at hp
    rw [if_pos hn, List.singleton_append, List.cons_append, decodeValue,
      Cursor.token_cons _ _ (by decide)]
    change (readNumber true ⟨natText n.natAbs ++ rest, place.next '-'⟩).bind _ = _
    rw [hp]
    rfl
  · obtain ⟨p, hp⟩ := readNumber_natAbs hlow hhigh hc place
    refine ⟨p, ?_⟩
    obtain ⟨d, t, hd, hdigit⟩ := exists_natText_cons n.natAbs
    have hother : d ≠ 'n' ∧ d ≠ 't' ∧ d ≠ 'f' ∧ d ≠ '-' := by
      refine ⟨?_, ?_, ?_, ?_⟩ <;> rintro rfl <;> exact absurd hdigit (by decide)
    obtain ⟨hnull, htrue, hfalse, hminus⟩ := hother
    rw [decide_eq_false hn, hd, List.cons_append] at hp
    rw [if_neg hn, List.nil_append, hd, List.cons_append, decodeValue,
      Cursor.token_cons _ _ (isGap_of_isDigit hdigit)]
    simp [bind, Except.bind, hnull, htrue, hfalse, hminus, hdigit, hp, pure, Except.pure, int]

theorem decodeValue_array {left : Nat} {items ws : List Json}
    (h : List.Forall₂ (fun v w => StartsItem v.chars ∧ Decodes (decodeValue (left + 1)) v.chars w)
      items ws) :
    Decodes (decodeValue (left + 2)) (chars (.array items)) (.array ws) := by
  intro rest place hc
  obtain ⟨p, hp⟩ := decodeList_array h rest place hc
  refine ⟨p, ?_⟩
  simp only [chars, List.cons_append] at hp ⊢
  rw [decodeValue, Cursor.token_cons _ _ (by decide)]
  change (decodeList (decodeValue (left + 1)) _).bind _ = _
  rw [hp]
  rfl

theorem decodeValue_object {left : Nat} {es gs : List (String × Json)}
    (h : List.Forall₂ (fun e g => e.1 = g.1 ∧ Decodes (decodeValue (left + 1)) e.2.chars g.2)
      es gs) :
    Decodes (decodeValue (left + 2)) (chars (.object es))
      (.object (gs.foldl (fun acc g => put g.1 g.2 acc) [])) := by
  intro rest place hc
  obtain ⟨p, hp⟩ := decodeMap_object h put [] rest place hc
  refine ⟨p, ?_⟩
  simp only [chars, List.cons_append] at hp ⊢
  rw [decodeValue, Cursor.token_cons _ _ (by decide)]
  change (decodeMap (decodeValue (left + 1)) put [] _).bind _ = _
  rw [hp]
  rfl

/-- What every item of a list has, a list has side by side. -/
theorem exists_forall₂ {α β : Type} {R : α → β → Prop} {xs : List α}
    (h : ∀ x ∈ xs, ∃ y, R x y) : ∃ ys, List.Forall₂ R xs ys := by
  induction xs with
  | nil => exact ⟨[], .nil⟩
  | cons x xs ih =>
    obtain ⟨⟨y, hy⟩, hrest⟩ := List.forall_mem_cons.1 h
    obtain ⟨ys, hys⟩ := ih hrest
    exact ⟨y :: ys, .cons hy hys⟩

/-- A plain value is read off its text, but for the order of the entries in its objects. -/
theorem Plain.decodes {n left : Nat} (h : Plain n v) (hleft : n < left) :
    ∃ w, Reordered v w ∧ Decodes (decodeValue left) v.chars w := by
  obtain ⟨left, rfl⟩ : ∃ k, left = k + 1 := ⟨left - 1, by omega⟩
  induction h generalizing left with
  | null => exact ⟨.null, .same _, fun _ _ _ => ⟨_, rfl⟩⟩
  | bool b => exact ⟨.bool b, .same _, fun _ _ _ => by cases b <;> exact ⟨_, rfl⟩⟩
  | text s => exact ⟨.text s, .same _, decodeValue_text left s⟩
  | int low high => exact ⟨_, .same _, decodeValue_int left low high⟩
  | @array n items parts ih =>
    obtain ⟨left, rfl⟩ : ∃ k, left = k + 1 := ⟨left - 1, by omega⟩
    have hitems : ∀ v ∈ items, ∃ w, Reordered v w ∧ StartsItem v.chars ∧
        Decodes (decodeValue (left + 1)) v.chars w := by
      intro v hv
      obtain ⟨w, hw, hread⟩ := ih v hv left (by omega)
      exact ⟨w, hw, (parts v hv).startsItem, hread⟩
    obtain ⟨ws, hws⟩ := exists_forall₂ hitems
    exact ⟨.array ws, .array (hws.imp fun _ _ h => h.1),
      decodeValue_array (hws.imp fun _ _ h => h.2)⟩
  | @object n es distinct parts ih =>
    obtain ⟨left, rfl⟩ : ∃ k, left = k + 1 := ⟨left - 1, by omega⟩
    have hentries : ∀ e ∈ es, ∃ g : String × Json, e.1 = g.1 ∧ Reordered e.2 g.2 ∧
        Decodes (decodeValue (left + 1)) e.2.chars g.2 := by
      intro e he
      obtain ⟨w, hw, hread⟩ := ih e he left (by omega)
      exact ⟨(e.1, w), rfl, hw, hread⟩
    obtain ⟨gs, hgs⟩ := exists_forall₂ hentries
    exact ⟨_, reordered_sorted distinct (hgs.imp fun _ _ h => ⟨h.1, h.2.1⟩),
      decodeValue_object (hgs.imp fun _ _ h => ⟨h.1, h.2.2⟩)⟩

theorem Plain.valueOf {n : Nat} (h : Plain n v) (hn : n < deepest) :
    ∃ w, valueOf v.render = .ok w ∧ Reordered v w := by
  obtain ⟨w, hw, hread⟩ := h.decodes hn
  exact ⟨w, hread.decode, hw⟩

/-- The value that the text of `v` tells is read as `a`. -/
def ReadFromText {α : Type} (read : Reads α) (v : Json) (a : α) : Prop :=
  ∃ w, valueOf v.render = .ok w ∧ read w = .ok a

theorem ReadBack.fromText {n : Nat} (h : ReadBack read v a) (hplain : Plain n v)
    (hn : n < deepest) : ReadFromText read v a := by
  obtain ⟨w, htext, hw⟩ := hplain.valueOf hn
  exact ⟨w, htext, h w hw⟩

end CodeSurvey.Json
