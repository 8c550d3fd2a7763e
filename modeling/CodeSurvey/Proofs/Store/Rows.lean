-- What the database gives back of the records that are written to it: all of
-- them unchanged, as long as sizes stay below `2 ^ 63` and no language is
-- counted twice.
import CodeSurvey.Proofs.Json.ReadBack
import CodeSurvey.Store.Relational.Row
import Mathlib.Data.List.Forall2

namespace CodeSurvey

open Json

/-- Where a step and what follows it are answered, each is. -/
theorem exists_of_bind_ok {ε α β : Type} {x : Except ε α} {f : α → Except ε β} {b : β}
    (h : x >>= f = .ok b) : ∃ a, x = .ok a ∧ f a = .ok b := by
  cases x with
  | error e => cases h
  | ok a => exact ⟨a, rfl, h⟩

/-! ## Lists side by side -/

section SideBySide

variable {α β : Type} {R : α → β → Prop} {xs : List α} {ys : List β} {p : α → Bool} {q : β → Bool}

theorem forall₂_filter (h : List.Forall₂ R xs ys) (hpq : ∀ x y, R x y → p x = q y) :
    List.Forall₂ R (xs.filter p) (ys.filter q) :=
  List.rel_filter (fun x y hr => Bool.eq_iff_iff.1 (hpq x y hr)) h

theorem forall₂_any (h : List.Forall₂ R xs ys) (hpq : ∀ x y, R x y → p x = q y) :
    xs.any p = ys.any q := by
  induction h with
  | nil => rfl
  | cons hr _ ih => rw [List.any_cons, List.any_cons, hpq _ _ hr, ih]

theorem forall₂_find? (h : List.Forall₂ R xs ys) (hpq : ∀ x y, R x y → p x = q y) :
    Option.Rel R (xs.find? p) (ys.find? q) := by
  induction h with
  | nil => exact .none
  | @cons x y xs ys hr _ ih =>
    rw [List.find?_cons, List.find?_cons, hpq _ _ hr]
    cases q y with
    | true => exact .some hr
    | false => exact ih

theorem forall₂_map {γ δ : Type} {S : γ → δ → Prop} {f : α → γ} {g : β → δ}
    (h : List.Forall₂ R xs ys) (hfg : ∀ x y, R x y → S (f x) (g y)) :
    List.Forall₂ S (xs.map f) (ys.map g) :=
  List.rel_map (fun _ _ hr => hfg _ _ hr) h

theorem forall₂_of_map_eq {γ : Type} {f : α → γ} {g : β → γ} (h : xs.map f = ys.map g) :
    List.Forall₂ (fun x y => f x = g y) xs ys := by
  have heq : List.Forall₂ (· = ·) (xs.map f) (ys.map g) := by rw [h, List.forall₂_eq_eq_eq]
  rwa [List.forall₂_map_left_iff, List.forall₂_map_right_iff] at heq

theorem exists_of_mem_left (h : List.Forall₂ R xs ys) {x : α} (hx : x ∈ xs) :
    ∃ y ∈ ys, R x y := by
  induction h with
  | nil => cases hx
  | @cons x' y' xs ys hr _ ih =>
    rcases List.mem_cons.1 hx with rfl | hx
    · exact ⟨y', by simp, hr⟩
    · obtain ⟨y, hy, hr⟩ := ih hx
      exact ⟨y, by simp [hy], hr⟩

/-- At each place of the one list, the other one has what goes with it. -/
theorem exists_of_getElem?_left (h : List.Forall₂ R xs ys) {n : Nat} {x : α}
    (hx : xs[n]? = some x) : ∃ y, ys[n]? = some y ∧ R x y := by
  obtain ⟨hn, rfl⟩ := List.getElem?_eq_some_iff.1 hx
  have hn' : n < ys.length := by rw [← h.length_eq]; exact hn
  exact ⟨ys[n], List.getElem?_eq_getElem hn', h.get hn hn'⟩

theorem optionRel_imp {S : α → β → Prop} {a : Option α} {b : Option β} (h : Option.Rel R a b)
    (hrs : ∀ x y, R x y → S x y) : Option.Rel S a b := by
  cases h with
  | none => exact .none
  | some hr => exact .some (hrs _ _ hr)

theorem optionRel_filter {a : Option α} {b : Option β} (h : Option.Rel R a b)
    (hpq : ∀ x y, R x y → p x = q y) : Option.Rel R (a.filter p) (b.filter q) := by
  cases h with
  | none => exact .none
  | @some x y hr =>
    rw [Option.filter_some, Option.filter_some, hpq _ _ hr]
    cases q y with
    | true => exact .some hr
    | false => exact .none

theorem mapM_eq_ok {ε : Type} {read : α → Except ε β}
    (h : List.Forall₂ (fun x y => read x = .ok y) xs ys) : xs.mapM read = .ok ys := by
  induction h with
  | nil => rfl
  | cons hr _ ih =>
    rw [List.mapM_cons, hr, ih]
    rfl

theorem forall₂_of_mapM_eq_ok {ε : Type} {read : α → Except ε β} (h : xs.mapM read = .ok ys) :
    List.Forall₂ (fun x y => read x = .ok y) xs ys := by
  induction xs generalizing ys with
  | nil =>
    obtain rfl := Except.ok.inj h
    exact .nil
  | cons x xs ih =>
    rw [List.mapM_cons] at h
    cases hx : read x with
    | error e =>
      rw [hx] at h
      cases h
    | ok y =>
      cases hxs : xs.mapM read with
      | error e =>
        rw [hx, hxs] at h
        cases h
      | ok rest =>
        rw [hx, hxs] at h
        obtain rfl := Except.ok.inj h
        exact .cons hx (ih hxs)

end SideBySide

/-! ## Names -/

theorem RepositoryStatus.ofName_name (s : RepositoryStatus) : ofName s.name = .ok s := by
  cases s <;> rfl

theorem FactKind.ofName_name (k : FactKind) : ofName k.name = .ok k := by
  cases k <;> rfl

theorem Accessibility.ofName_name (a : Accessibility) : ofName a.name = .ok a := by
  cases a <;> rfl

/-! ## Counts of languages -/

/-- No language is counted twice. -/
def Breakdown.Distinct (b : Breakdown) : Prop := (b.map (·.1)).Nodup

theorem Breakdown.put_new {language : String} (count : UInt64) {b : Breakdown}
    (h : language ∉ b.map (·.1)) : Breakdown.put language count b = b ++ [(language, count)] := by
  induction b with
  | nil => rfl
  | cons e b ih =>
    simp only [List.map_cons, List.mem_cons, not_or] at h
    rw [put, if_neg (Ne.symm h.1), ih h.2]
    rfl

/-- Counts of different languages are put one behind the other. -/
theorem Breakdown.foldl_put (before b : Breakdown) (h : Breakdown.Distinct (before ++ b)) :
    b.foldl (fun s e => Breakdown.put e.1 e.2 s) before = before ++ b := by
  induction b generalizing before with
  | nil => simp
  | cons e b ih =>
    have hnew : e.1 ∉ before.map (·.1) := by
      intro hmem
      unfold Distinct at h
      rw [List.map_append, List.map_cons, List.nodup_append] at h
      exact h.2.2 e.1 hmem e.1 (by simp) rfl
    rw [List.foldl_cons, put_new e.2 hnew, ih _ (by simpa [Distinct] using h)]
    simp

theorem Breakdown.ofText_text {b : Breakdown} (h : b.Distinct) : ofText b.text = .ok b := by
  have hd := (decodeMap_counts Breakdown.put [] b).decode
  rw [foldl_put [] b (by simpa using h)] at hd
  exact hd

/-! ## Parameters -/

theorem decodeOption_text (s : String) :
    Decodes (decodeOption decodeText) (chars (.text s)) (some s) :=
  Decodes.some (decodeText_stringText s) (by decide) (by decide)

namespace ParameterDraft

/-- A value is read into the slot with its name. -/
theorem reads_slot {α : Type} (name : String) (get : ParameterDraft → Option α) {read : Decoder α}
    (set : ParameterDraft → α → ParameterDraft) {d : ParameterDraft} {v : Json} {a : α}
    (hfind : slots.find? (fun t => t.name == name) = some (slot name get read set))
    (hfree : get d = none) (hread : Decodes read v.chars a) :
    ReadsEntry (decodeSlot slots) d name v (set d a) := by
  refine decodeSlot_found hfind (by simp [slot, hfree]) fun rest place hc => ?_
  obtain ⟨p, hp⟩ := hread rest place hc
  exact ⟨p, by simp only [slot, hp, bind, Except.bind, pure, Except.pure]⟩

/-- A value that may lack is read into its slot where it is there. -/
theorem reads_optional (name : String) (get : ParameterDraft → Option (Option String))
    (set : ParameterDraft → Option String → ParameterDraft) {d : ParameterDraft}
    (hfind : slots.find? (fun t => t.name == name) =
      some (slot name get (decodeOption decodeText) set))
    (hfree : get d = none) (o : Option String) :
    ReadsEntries (decodeSlot slots) d (o.map (fun t => (name, Json.text t))).toList
      (match o with | none => d | some t => set d (some t)) := by
  cases o with
  | none => rfl
  | some t => exact ⟨_, reads_slot name get set hfind hfree (decodeOption_text t), rfl⟩

end ParameterDraft

theorem Parameter.decodes (p : Parameter) : Decodes Parameter.decode p.toJson.chars p := by
  obtain ⟨name, writtenType, isOptional, defaultValue⟩ := p
  -- what was read behind each of the four entries
  let named : ParameterDraft := ⟨some name, none, none, none⟩
  let typed : ParameterDraft := ⟨some name, writtenType.map some, none, none⟩
  let marked : ParameterDraft := ⟨some name, writtenType.map some, some isOptional, none⟩
  let whole : ParameterDraft :=
    ⟨some name, writtenType.map some, some isOptional, defaultValue.map some⟩
  have hname : ReadsEntry (decodeSlot ParameterDraft.slots) .empty "name" (.text name) named :=
    ParameterDraft.reads_slot "name" (·.name) (fun d a => { d with name := some a }) rfl rfl
      (decodeText_stringText name)
  have htype : ReadsEntries (decodeSlot ParameterDraft.slots) named
      (writtenType.map (fun t => ("type_annotation", .text t))).toList typed := by
    have h := ParameterDraft.reads_optional "type_annotation" (·.writtenType)
      (fun d a => { d with writtenType := some a }) (d := named) rfl rfl writtenType
    cases writtenType <;> exact h
  have hmark : ReadsEntry (decodeSlot ParameterDraft.slots) typed "optional" (.bool isOptional)
      marked :=
    ParameterDraft.reads_slot "optional" (·.isOptional) (fun d a => { d with isOptional := some a })
      rfl rfl (decodeBool_chars isOptional)
  have hdefault : ReadsEntries (decodeSlot ParameterDraft.slots) marked
      (defaultValue.map (fun t => ("default_value", .text t))).toList whole := by
    have h := ParameterDraft.reads_optional "default_value" (·.defaultValue)
      (fun d a => { d with defaultValue := some a }) (d := marked) rfl rfl defaultValue
    cases defaultValue <;> exact h
  have hnamed :
      ReadsEntries (decodeSlot ParameterDraft.slots) .empty [("name", .text name)] named :=
    ⟨named, hname, rfl⟩
  have hmarked : ReadsEntries (decodeSlot ParameterDraft.slots) typed
      [("optional", .bool isOptional)] marked :=
    ⟨marked, hmark, rfl⟩
  have hall := readsEntries_append (readsEntries_append (readsEntries_append hnamed htype) hmarked)
    hdefault
  refine decodeRecord_object hall ?_
  cases writtenType <;> cases defaultValue <;> rfl

theorem Parameter.ofListText_listText (ps : List Parameter) :
    Parameter.ofListText (Parameter.listText ps) = .ok ps := by
  refine (decodeList_array ?_).decode
  rw [List.forall₂_map_left_iff, List.forall₂_same]
  exact fun p _ => ⟨⟨'\x7b', _, rfl, by decide, by decide⟩, p.decodes⟩

/-! ## What fits the columns -/

/-- A column of whole numbers gives the number back. -/
def FitsColumn (n : UInt64) : Prop := n.toNat < Text.wordSize 63

instance (n : UInt64) : Decidable (FitsColumn n) :=
  inferInstanceAs (Decidable (n.toNat < Text.wordSize 63))

theorem fitsColumn_zero : FitsColumn 0 := by decide

/-- The file can be stored and read back unchanged. -/
def NewFile.Fits (f : NewFile) : Prop := FitsColumn f.size

/-- The repository can be stored and read back unchanged. -/
structure Repository.Fits (r : Repository) : Prop where
  totalFiles : FitsColumn r.totalFiles
  totalSize : FitsColumn r.totalSize
  languages : r.languages.Distinct

/-- What the update sets can be stored and read back unchanged. -/
structure RepositoryUpdate.Fits (u : RepositoryUpdate) : Prop where
  totalFiles : ∀ n ∈ u.totalFiles, FitsColumn n
  totalSize : ∀ n ∈ u.totalSize, FitsColumn n
  languages : ∀ b ∈ u.languages, b.Distinct

theorem Repository.fits_fresh (id : String) : (Repository.fresh id).Fits where
  totalFiles := fitsColumn_zero
  totalSize := fitsColumn_zero
  languages := List.nodup_nil

theorem Repository.Fits.apply {r : Repository} {u : RepositoryUpdate} (hr : r.Fits) (hu : u.Fits) :
    (r.apply u).Fits := by
  refine ⟨?_, ?_, ?_⟩
  · cases hn : u.totalFiles with
    | none => simpa [Repository.apply, hn] using hr.totalFiles
    | some n => simpa [Repository.apply, hn] using hu.totalFiles n hn
  · cases hn : u.totalSize with
    | none => simpa [Repository.apply, hn] using hr.totalSize
    | some n => simpa [Repository.apply, hn] using hu.totalSize n hn
  · cases hb : u.languages with
    | none => simpa [Repository.apply, hb] using hr.languages
    | some b => simpa [Repository.apply, hb] using hu.languages b hb

namespace Relational

/-! ## Cells -/

theorem Cell.toUInt64_ofUInt64 {n : UInt64} (h : FitsColumn n) (index : Nat) (column : String) :
    (Cell.ofUInt64 n).toUInt64 index column = .ok n := by
  have hpos : ¬ n.toInt64 < 0 := by
    have hn : n.toNat < 2 ^ 63 := h
    have hvalue : n.toInt64.toInt = n.toNat := by
      rw [← UInt64.ofNat_toNat (x := n), UInt64.toInt64_ofNat', Int64.toInt_ofNat_of_lt]
      · simp
      · simpa using hn
    rw [Int64.lt_iff_toInt_lt, hvalue, Int64.toInt_zero]
    omega
  simp [Cell.ofUInt64, Cell.toUInt64, Cell.toInt64, bind, Except.bind, pure, Except.pure, hpos]

theorem Cell.toUInt32_ofUInt32 (n : UInt32) (index : Nat) (column : String) :
    (Cell.ofUInt32 n).toUInt32 index column = .ok n := by
  have hn : n.toNat < 2 ^ 32 := n.toNat_lt
  have hvalue : (Int64.ofNat n.toNat).toInt = n.toNat := by
    rw [Int64.toInt_ofNat_of_lt (by omega)]
  have hrange : 0 ≤ (n.toNat : Int) ∧ (n.toNat : Int) < (Text.wordSize 32 : Nat) :=
    ⟨by omega, by exact_mod_cast hn⟩
  simp only [Cell.ofUInt32, Cell.toUInt32, Cell.toInt64, bind, Except.bind, pure, Except.pure,
    hvalue, if_pos hrange, Int.toNat_natCast, UInt32.ofNat_toNat]

theorem Cell.toBool_ofBool (b : Bool) (index : Nat) (column : String) :
    (Cell.ofBool b).toBool index column = .ok b := by
  cases b <;> rfl

/-! ## Rows -/

theorem RepositoryRow.toRepository_ofRepository {r : Repository} (h : r.Fits) :
    (RepositoryRow.ofRepository r).toRepository = .ok r := by
  simp [RepositoryRow.ofRepository, RepositoryRow.toRepository, converted,
    RepositoryStatus.ofName_name, Cell.toUInt64_ofUInt64 h.totalFiles,
    Cell.toUInt64_ofUInt64 h.totalSize, Breakdown.ofText_text h.languages, Except.mapError, bind,
    Except.bind, pure, Except.pure]

theorem FileRow.toFile_ofFile {f : NewFile} (h : f.Fits) (id : Int64) :
    (FileRow.ofFile id f).toFile = .ok ⟨f, id⟩ := by
  simp [FileRow.ofFile, FileRow.toFile, Cell.toUInt64_ofUInt64 h, bind, Except.bind, pure,
    Except.pure]

theorem FactRow.toFact_ofFact (id file : Int64) (repository : String) (f : Fact) :
    (FactRow.ofFact id file repository f).toFact = .ok ⟨id, file, repository, f⟩ := by
  have hparameters :
      whereSome (fun s => converted 9 ((Parameter.ofListText s).mapError (·.message)))
      (f.parameters.map Parameter.listText) = .ok f.parameters := by
    cases f.parameters with
    | none => rfl
    | some ps =>
      simp only [Option.map_some, whereSome, Parameter.ofListText_listText, converted,
        Except.mapError]
      rfl
  have haccess : whereSome (fun s => converted 13 (Accessibility.ofName s))
      (f.accessibility.map Accessibility.name) = .ok f.accessibility := by
    cases f.accessibility with
    | none => rfl
    | some a =>
      simp only [Option.map_some, whereSome, Accessibility.ofName_name, converted,
        Except.mapError]
      rfl
  have hkind : converted 4 (FactKind.ofName f.kind.name) = .ok f.kind := by
    simp only [FactKind.ofName_name, converted, Except.mapError]
  simp only [FactRow.ofFact, FactRow.toFact, hkind, hparameters, haccess, Cell.toUInt32_ofUInt32,
    Cell.toBool_ofBool, bind, Except.bind, pure, Except.pure]

theorem EdgeRow.toEdge_ofEdge (id : Int64) (e : Edge) :
    (EdgeRow.ofEdge id e).toEdge = .ok ⟨e, id⟩ := by
  simp [EdgeRow.ofEdge, EdgeRow.toEdge, Cell.toUInt32_ofUInt32, bind, Except.bind, pure,
    Except.pure]

/-! ### What a row tells of its record -/

theorem RepositoryRow.id_eq {row : RepositoryRow} {r : Repository}
    (h : row.toRepository = .ok r) : row.id = r.id := by
  simp only [toRepository, bind, Except.bind, pure, Except.pure] at h
  repeat' (split at h <;> [cases h; skip])
  simp only [Except.ok.injEq] at h
  rw [← h]

theorem FileRow.eq_of_toFile {row : FileRow} {f : StoredFile} (h : row.toFile = .ok f) :
    row.id = f.id ∧ row.repository = f.repository ∧ row.path = f.path := by
  simp only [toFile, bind, Except.bind, pure, Except.pure] at h
  split at h
  · cases h
  · simp only [Except.ok.injEq] at h
    rw [← h]
    exact ⟨rfl, rfl, rfl⟩

theorem FactRow.eq_of_toFact {row : FactRow} {x : StoredFact} (h : row.toFact = .ok x) :
    row.file = x.file ∧ row.repository = x.repository := by
  simp only [toFact, bind, Except.bind, pure, Except.pure] at h
  repeat' (split at h <;> [cases h; skip])
  simp only [Except.ok.injEq] at h
  rw [← h]
  exact ⟨rfl, rfl⟩

theorem EdgeRow.eq_of_toEdge {row : EdgeRow} {e : StoredEdge} (h : row.toEdge = .ok e) :
    row.sourceFile = e.sourceFile ∧ row.repository = e.repository ∧
      row.targetFile = e.targetFile := by
  simp only [toEdge, bind, Except.bind, pure, Except.pure] at h
  split at h
  · cases h
  · simp only [Except.ok.injEq] at h
    rw [← h]
    exact ⟨rfl, rfl, rfl⟩

theorem FactRow.id_eq {row : FactRow} {x : StoredFact} (h : row.toFact = .ok x) :
    row.id = x.id := by
  simp only [toFact, bind, Except.bind, pure, Except.pure] at h
  repeat' (split at h <;> [cases h; skip])
  simp only [Except.ok.injEq] at h
  rw [← h]

theorem EdgeRow.id_eq {row : EdgeRow} {e : StoredEdge} (h : row.toEdge = .ok e) :
    row.id = e.id := by
  simp only [toEdge, bind, Except.bind, pure, Except.pure] at h
  split at h
  · cases h
  · simp only [Except.ok.injEq] at h
    rw [← h]

/-- Whatever is written to a row of a file can be read back, though perhaps with another size. -/
theorem FileRow.exists_toFile_ofFile (id : Int64) (f : NewFile) :
    ∃ kept, (FileRow.ofFile id f).toFile = .ok kept ∧ kept.id = id ∧
      kept.repository = f.repository ∧ kept.path = f.path := by
  obtain ⟨size, hsize⟩ : ∃ n, (Cell.ofUInt64 f.size).toUInt64 6 "size_bytes" = .ok n := ⟨_, rfl⟩
  refine ⟨⟨{ f with size := size }, id⟩, ?_, rfl, rfl, rfl⟩
  simp [ofFile, toFile, hsize, bind, Except.bind, pure, Except.pure]

/-- Whatever is written to a row of a repository can be read back, though perhaps changed. -/
theorem RepositoryRow.exists_toRepository_ofRepository (r : Repository) :
    ∃ kept, (RepositoryRow.ofRepository r).toRepository = .ok kept ∧ kept.id = r.id ∧
      (r.Fits → kept = r) := by
  have hcell : ∀ (n : UInt64) index column, ∃ m, (Cell.ofUInt64 n).toUInt64 index column = .ok m :=
    fun n _ _ => ⟨_, rfl⟩
  obtain ⟨files, hfiles⟩ := hcell r.totalFiles 4 "total_files"
  obtain ⟨size, hsize⟩ := hcell r.totalSize 5 "total_size"
  have hlanguages : ∃ b, Breakdown.ofText r.languages.text = .ok b :=
    ⟨_, (decodeMap_counts Breakdown.put [] r.languages).decode⟩
  obtain ⟨b, hb⟩ := hlanguages
  have hkept : (RepositoryRow.ofRepository r).toRepository = .ok ⟨r.id, r.status, r.storagePath,
      r.primaryLanguage, files, size, b, r.errorMessage⟩ := by
    simp [ofRepository, toRepository, converted, RepositoryStatus.ofName_name, hfiles, hsize, hb,
      Except.mapError, bind, Except.bind, pure, Except.pure]
  refine ⟨_, hkept, rfl, fun h => ?_⟩
  rw [toRepository_ofRepository h, Except.ok.injEq] at hkept
  exact hkept.symm

end Relational

end CodeSurvey
