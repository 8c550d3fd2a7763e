-- The layout of a database and the version that is stamped into it. A version that reads as
-- a number of 32 bits decides: a later one is refused, with the database as it is, and all
-- others give way to this one, with every row as it is. What reads as none counts as zero.
import CodeSurvey.Proofs.Text.Number
import CodeSurvey.Store.Relational.Schema
import Mathlib.Data.List.Basic

namespace CodeSurvey.Relational.Database

variable {d : Database} {n : Int}

/-! ## The stamp -/

/-- The text under the key of the version; none when there is no such note, or an empty one. -/
def stampText (d : Database) : Option String :=
  (d.notes.find? (fun n => n.1 == versionKey)).bind (·.2)

/-- The number is stamped as the version. -/
def Stamped (d : Database) (n : Int) : Prop :=
  ∃ text, d.stampText = some text ∧ Text.Writes text.toList n

theorem version_eq (d : Database) :
    d.version = (d.stampText.bind fun text => Text.int32? text.toList).getD 0 := by
  unfold version stampText
  cases d.notes.find? (fun n => n.1 == versionKey) with
  | none => rfl
  | some note =>
    obtain ⟨key, value⟩ := note
    cases value <;> rfl

/-- A stamp is read where it is a number of 32 bits. -/
theorem Stamped.version (h : d.Stamped n) :
    d.version = if -(Text.wordSize 31) ≤ n ∧ n < Text.wordSize 31 then n else 0 := by
  obtain ⟨text, htext, hwrites⟩ := h
  rw [version_eq, htext, Option.bind_some]
  split
  · rename_i hbounds
    have hread : Text.int32? text.toList = some n := Text.signed?_iff.2 ⟨hwrites, hbounds⟩
    rw [hread, Option.getD_some]
  · rename_i hbounds
    cases hread : Text.int32? text.toList with
    | none => rfl
    | some m =>
      obtain ⟨hwrites', hm⟩ := Text.signed?_iff.1 hread
      obtain rfl := hwrites.unique hwrites'
      exact absurd hm hbounds

theorem version_of_not_stamped (h : ∀ n, ¬ d.Stamped n) : d.version = 0 := by
  rw [version_eq]
  cases htext : d.stampText with
  | none => rfl
  | some text =>
    cases hread : Text.int32? text.toList with
    | none => simp [hread]
    | some m => exact absurd ⟨text, htext, (Text.signed?_iff.1 hread).1⟩ (h m)

/-- A later version is stamped that reads as a number of 32 bits. -/
def Later (d : Database) (n : Int) : Prop := d.Stamped n ∧ schemaVersion < n ∧ n < Text.wordSize 31

theorem Later.version (h : d.Later n) : d.version = n := by
  obtain ⟨hstamped, hlater, hbound⟩ := h
  have hpos : (1 : Int) < n := hlater
  rw [hstamped.version, if_pos ⟨by omega, hbound⟩]

/-- No version is read that is later. -/
theorem version_le (h : ∀ n, ¬ d.Later n) : d.version ≤ schemaVersion := by
  by_cases hstamped : ∃ n, d.Stamped n
  · obtain ⟨n, hn⟩ := hstamped
    have hle : schemaVersion < n → ¬ n < Text.wordSize 31 := fun hlater hbound =>
      h n ⟨hn, hlater, hbound⟩
    have hone : schemaVersion = 1 := rfl
    rw [hn.version]
    split <;> omega
  · rw [version_of_not_stamped fun n hn => hstamped ⟨n, hn⟩]
    decide

/-! ## Tables and indexes -/

/-- What lacks is made behind what is there. -/
theorem create_all (names : List String) (d : Database) :
    ∃ new, names.foldl create d = { d with objects := d.objects ++ new } ∧
      (∀ name ∈ names, name ∈ d.objects ++ new) ∧ ∀ name ∈ new, name ∈ names := by
  induction names generalizing d with
  | nil => exact ⟨[], by simp⟩
  | cons first names ih =>
    rw [List.foldl_cons]
    by_cases hthere : first ∈ d.objects
    · have hcreate : create d first = d := if_pos (by simpa using hthere)
      obtain ⟨new, hfold, hall, hnew⟩ := ih d
      rw [hcreate]
      refine ⟨new, hfold, ?_, fun name hname => List.mem_cons_of_mem _ (hnew name hname)⟩
      intro name hname
      rcases List.mem_cons.1 hname with rfl | hname
      · exact List.mem_append_left _ hthere
      · exact hall name hname
    · have hcreate : create d first = { d with objects := d.objects ++ [first] } :=
        if_neg (by simpa using hthere)
      obtain ⟨new, hfold, hall, hnew⟩ := ih { d with objects := d.objects ++ [first] }
      rw [hcreate, hfold]
      simp only [List.append_assoc, List.singleton_append] at hall ⊢
      refine ⟨first :: new, rfl, ?_, ?_⟩
      · intro name hname
        rcases List.mem_cons.1 hname with rfl | hname
        · simp
        · exact hall name hname
      · intro name hname
        rcases List.mem_cons.1 hname with rfl | hname
        · exact List.mem_cons_self
        · exact List.mem_cons_of_mem _ (hnew name hname)

theorem create_none {names : List String} (h : ∀ name ∈ names, name ∈ d.objects) :
    names.foldl create d = d := by
  induction names with
  | nil => rfl
  | cons first names ih =>
    obtain ⟨hfirst, hnames⟩ := List.forall_mem_cons.1 h
    have hcreate : create d first = d := if_pos (by simpa using hfirst)
    rw [List.foldl_cons, hcreate, ih hnames]

/-! ## Notes -/

/-- A note leaves those under other keys. -/
theorem others_putNote (key : String) (value : Option String) (d : Database) :
    (putNote key value d).notes.filter (fun n => n.1 != key) =
      d.notes.filter (fun n => n.1 != key) := by
  unfold putNote
  split
  · rw [List.filter_map]
    have hsame : ((fun n : String × Option String => n.1 != key) ∘
        fun n => if n.1 == key then (key, value) else n) = fun n => n.1 != key := by
      funext n
      by_cases hkey : n.1 = key <;> simp [hkey]
    rw [hsame]
    refine List.map_congr_left (fun n hn => ?_) |>.trans (List.map_id _)
    have hne : n.1 ≠ key := by simpa using (List.mem_filter.1 hn).2
    simp [hne]
  · simp

theorem find?_written {key : String} {notes : List (String × Option String)}
    (value : Option String) (h : notes.any (fun n => n.1 == key) = true) :
    (notes.map fun n => if n.1 == key then (key, value) else n).find? (fun n => n.1 == key) =
      some (key, value) := by
  induction notes with
  | nil => cases h
  | cons n notes ih =>
    rw [List.map_cons]
    by_cases hkey : n.1 = key
    · simp [hkey]
    · have hrest : notes.any (fun n => n.1 == key) = true := by
        rw [List.any_cons] at h
        simpa only [beq_eq_false_iff_ne.2 hkey, Bool.false_or] using h
      rw [if_neg (by simpa using hkey), List.find?_cons_of_neg (by simpa using hkey)]
      exact ih hrest

theorem find?_putNote (key : String) (value : Option String) (d : Database) :
    (putNote key value d).notes.find? (fun n => n.1 == key) = some (key, value) := by
  unfold putNote
  split
  · rename_i hany
    exact find?_written value hany
  · rename_i hany
    have hnone : d.notes.find? (fun n => n.1 == key) = none :=
      List.find?_eq_none.2 fun n hn hkey => hany (List.any_eq_true.2 ⟨n, hn, hkey⟩)
    simp [List.find?_append, hnone]

/-! ## Bringing a layout up to date -/

/-- The second database is the first with the layout up to date: all tables and indexes are there
and the version is this one, while no row is another, and doing it again changes nothing. -/
structure UpToDate (d d' : Database) : Prop where
  version : d'.version = schemaVersion
  all : ∀ name ∈ schemaObjects, name ∈ d'.objects
  objects : ∃ new, d'.objects = d.objects ++ new ∧ ∀ name ∈ new, name ∈ schemaObjects
  repositories : d'.repositories = d.repositories
  files : d'.files = d.files
  facts : d'.facts = d.facts
  edges : d'.edges = d.edges
  notes : d'.notes.filter (fun n => n.1 != versionKey) =
    d.notes.filter (fun n => n.1 != versionKey)
  again : d'.applySchema = (.ok (), d')

theorem applySchema_later (h : d.Later n) : d.applySchema = (.error (newerVersion n), d) := by
  unfold applySchema
  rw [h.version]
  exact if_pos h.2.1

/-- Nothing is left to do where the layout is up to date. -/
theorem applySchema_current (hversion : d.version = schemaVersion)
    (hall : ∀ name ∈ schemaObjects, name ∈ d.objects) : d.applySchema = (.ok (), d) := by
  unfold applySchema
  simp [hversion, create_none hall]

theorem applySchema_ok (h : ∀ n, ¬ d.Later n) :
    ∃ d', d.applySchema = (.ok (), d') ∧ UpToDate d d' := by
  have hversion := version_le h
  obtain ⟨new, hmade, hall, hnew⟩ := create_all schemaObjects d
  have happly : d.applySchema = (.ok (), if d.version < schemaVersion then
      putNote versionKey (some (toString schemaVersion)) { d with objects := d.objects ++ new }
      else { d with objects := d.objects ++ new }) := by
    rw [applySchema, hmade]
    exact if_neg (Int.not_lt.2 hversion)
  rw [happly]
  refine ⟨_, rfl, ?_⟩
  by_cases hearlier : d.version < schemaVersion
  · rw [if_pos hearlier]
    have hstamped : (putNote versionKey (some (toString schemaVersion))
        { d with objects := d.objects ++ new }).version = schemaVersion := by
      rw [version_eq, stampText, find?_putNote]
      decide +kernel
    exact ⟨hstamped, hall, ⟨new, rfl, hnew⟩, rfl, rfl, rfl, rfl, others_putNote _ _ _,
      applySchema_current hstamped hall⟩
  · rw [if_neg hearlier]
    have hsame : ({ d with objects := d.objects ++ new } : Database).version = schemaVersion :=
      Int.le_antisymm hversion (Int.not_lt.1 hearlier)
    exact ⟨hsame, hall, ⟨new, rfl, hnew⟩, rfl, rfl, rfl, rfl, rfl,
      applySchema_current hsame hall⟩

/-- In a database that is up to date all tables and indexes of the layout are listed. -/
theorem UpToDate.listed {d' : Database} (h : UpToDate d d') :
    ∀ name ∈ schemaObjects, name ∈ d'.objectNames :=
  fun name hname => List.mem_mergeSort.2 (h.all name hname)

/-! ## Stamps of others -/

/-- A number that somebody else stamps is the one that is read. -/
theorem stamped_stamp {text : String} (h : Text.Writes text.toList n) (d : Database) :
    (d.stamp (some text)).Stamped n := by
  refine ⟨text, ?_, h⟩
  rw [stampText, stamp, find?_putNote, Option.bind_some]

/-- Where somebody else has cleared the version nothing is later, and every row is kept. -/
theorem applySchema_unstamped {d' : Database} (h : d.unstamp = (.ok (), d')) :
    ∃ d'', d'.applySchema = (.ok (), d'') ∧ UpToDate { d with notes := [] } d'' := by
  have hcleared : d' = { d with notes := [] } := by
    unfold unstamp at h
    split at h
    · cases h
      rfl
    · cases h
  rw [hcleared]
  refine applySchema_ok fun n hlater => ?_
  obtain ⟨text, htext, -⟩ := hlater.1
  cases htext

end CodeSurvey.Relational.Database
