-- Every record of the survey is read back from its own JSON value, also when the
-- entries of the objects in it come in another order, as they do once a value has
-- been held as a map. Where a record holds counts of languages these follow the
-- order of the value. From its own text a record is read back in the same way.
import CodeSurvey.Analysis
import CodeSurvey.Discovery.Form
import CodeSurvey.Facts.Form
import CodeSurvey.Job.Form
import CodeSurvey.Proofs.Json.Reordered
import CodeSurvey.Repository.Form
import CodeSurvey.Store.Form
import Mathlib.Data.List.Perm.Basic

namespace CodeSurvey

open Json

variable {es gs : List (String × Json)} {w : Json}

/-! ## Names -/

theorem FactKind.readBack (k : FactKind) : ReadBack (readName named) (.text k.name) k :=
  .named (by cases k <;> rfl)

theorem Accessibility.readBack (a : Accessibility) : ReadBack (readName named) (.text a.name) a :=
  .named (by cases a <;> rfl)

theorem ExportKind.readBack (k : ExportKind) : ReadBack (readName byName) (.text k.name) k :=
  .named (by cases k <;> rfl)

theorem RepositoryStatus.readBack (s : RepositoryStatus) :
    ReadBack (readName named) (.text s.name) s :=
  .named (by cases s <;> rfl)

/-! ## Facts -/

theorem Parameter.readBack (p : Parameter) : ReadBack Parameter.ofJson p.toJson p := by
  obtain ⟨name, writtenType, isOptional, defaultValue⟩ := p
  refine .record ?_ fun gs h => ?_
  · cases writtenType <;> cases defaultValue <;> simp
  · exact ((h.field (by simp) (.text name)).map Parameter.mk)
      |>.seq (h.defaulted (by simp) (by simp +contextual))
      |>.seq (h.field (by simp) (.bool isOptional))
      |>.seq (h.defaulted (by simp) (by simp +contextual))

theorem Fact.takes {f : Fact} (h : Shuffled es gs) (hsub : ∀ e ∈ f.entries, e ∈ es) :
    Takes Fact.fields gs f := by
  obtain ⟨name, kind, signature, docComment, startLine, endLine, parameters, returnType, exported,
    isAsync, accessibility⟩ := f
  exact ((h.field (hsub _ (by simp [entries])) (.text name)).map Fact.mk)
    |>.seq (h.field (hsub _ (by simp [entries])) kind.readBack)
    |>.seq (h.field (hsub _ (by simp [entries])) (.text signature))
    |>.seq (h.field (hsub _ (by simp [entries])) (.option (by simp) fun s _ => .text s))
    |>.seq (h.field (hsub _ (by simp [entries])) (.uint32 startLine))
    |>.seq (h.field (hsub _ (by simp [entries])) (.uint32 endLine))
    |>.seq (h.field (hsub _ (by simp [entries])) (.option (by simp)
      fun ps _ => .list fun p _ => p.readBack))
    |>.seq (h.field (hsub _ (by simp [entries])) (.option (by simp) fun s _ => .text s))
    |>.seq (h.field (hsub _ (by simp [entries])) (.bool exported))
    |>.seq (h.field (hsub _ (by simp [entries])) (.bool isAsync))
    |>.seq (h.field (hsub _ (by simp [entries])) (.option (by simp) fun a _ => a.readBack))

theorem Fact.readBack (f : Fact) : ReadBack Fact.ofJson f.toJson f :=
  .record (by simp [entries]) fun _ h => takes h fun _ he => he

theorem Import.readBack (i : Import) : ReadBack Import.ofJson i.toJson i := by
  obtain ⟨source, defaultImport, named, namespaceName, typeOnly, line⟩ := i
  refine .record (by simp) fun gs h => ?_
  exact ((h.field (by simp) (.text source)).map Import.mk)
    |>.seq (h.field (by simp) (.option (by simp) fun s _ => .text s))
    |>.seq (h.field (by simp) (.list fun s _ => .text s))
    |>.seq (h.field (by simp) (.option (by simp) fun s _ => .text s))
    |>.seq (h.field (by simp) (.bool typeOnly))
    |>.seq (h.field (by simp) (.uint32 line))

theorem Export.readBack (e : Export) : ReadBack Export.ofJson e.toJson e := by
  obtain ⟨name, kind, source, line⟩ := e
  refine .record (by simp) fun gs h => ?_
  exact ((h.field (by simp) (.text name)).map Export.mk)
    |>.seq (h.field (by simp) kind.readBack)
    |>.seq (h.field (by simp) (.option (by simp) fun s _ => .text s))
    |>.seq (h.field (by simp) (.uint32 line))

theorem Features.readBack (f : Features) : ReadBack Features.ofJson f.toJson f := by
  obtain ⟨asyncFunctions, classes, decorators, generics, jsx, optionalChaining, annotations⟩ := f
  refine .record (by simp) fun gs h => ?_
  exact ((h.field (by simp) (.bool asyncFunctions)).map Features.mk)
    |>.seq (h.field (by simp) (.bool classes))
    |>.seq (h.field (by simp) (.bool decorators))
    |>.seq (h.field (by simp) (.bool generics))
    |>.seq (h.field (by simp) (.bool jsx))
    |>.seq (h.field (by simp) (.bool optionalChaining))
    |>.seq (h.field (by simp) (.bool annotations))

theorem FileFacts.readBack (f : FileFacts) : ReadBack FileFacts.ofJson f.toJson f := by
  obtain ⟨facts, imports, exports, features⟩ := f
  refine .record (by simp) fun gs h => ?_
  exact ((h.field (by simp) (.list fun f _ => f.readBack)).map FileFacts.mk)
    |>.seq (h.field (by simp) (.list fun i _ => i.readBack))
    |>.seq (h.field (by simp) (.list fun e _ => e.readBack))
    |>.seq (h.field (by simp) features.readBack)

/-! ## Stored records -/

theorem NewFile.takes {f : NewFile} (h : Shuffled es gs) (hsub : ∀ e ∈ f.entries, e ∈ es) :
    Takes NewFile.fields gs f := by
  obtain ⟨repository, path, name, extension, language, size, content, contentHash⟩ := f
  exact ((h.field (hsub _ (by simp [entries])) (.text repository)).map NewFile.mk)
    |>.seq (h.field (hsub _ (by simp [entries])) (.text path))
    |>.seq (h.field (hsub _ (by simp [entries])) (.text name))
    |>.seq (h.field (hsub _ (by simp [entries])) (.text extension))
    |>.seq (h.field (hsub _ (by simp [entries])) (.option (by simp) fun s _ => .text s))
    |>.seq (h.field (hsub _ (by simp [entries])) (.uint64 size))
    |>.seq (h.field (hsub _ (by simp [entries])) (.option (by simp) fun s _ => .text s))
    |>.seq (h.field (hsub _ (by simp [entries])) (.option (by simp) fun s _ => .text s))

theorem NewFile.readBack (f : NewFile) : ReadBack NewFile.ofJson f.toJson f :=
  .record (by simp [entries]) fun _ h => takes h fun _ he => he

theorem StoredFile.readBack (f : StoredFile) : ReadBack StoredFile.ofJson f.toJson f := by
  obtain ⟨file, id⟩ := f
  refine .record (by simp [NewFile.entries]) fun gs h => ?_
  exact ((h.field (by simp) (.int64 id)).map fun id f => StoredFile.mk f id)
    |>.seq (NewFile.takes h fun _ he => List.mem_cons_of_mem _ he)

/-- A stored fact has the entries of its fact beside its own. -/
theorem StoredFact.readBack (f : StoredFact) : ReadBack StoredFact.ofJson f.toJson f := by
  obtain ⟨id, file, repository, fact⟩ := f
  intro w hw
  obtain ⟨gs, rfl, h⟩ := hw.shuffled (by simp [Fact.entries])
  have hplace : Takes placeFields gs (StoredFact.mk id file repository) :=
    ((h.field (by simp) (.int64 id)).map StoredFact.mk)
      |>.seq (h.field (by simp) (.int64 file))
      |>.seq (h.field (by simp) (.text repository))
  have hfact : Takes Fact.fields gs fact :=
    Fact.takes h fun _ he => List.mem_append_right _ he
  simp only [ofJson, hplace.ofEntries, hfact.ofEntries, bind, Except.bind, pure, Except.pure]

theorem Edge.takes {e : Edge} (h : Shuffled es gs) (hsub : ∀ x ∈ e.entries, x ∈ es) :
    Takes Edge.fields gs e := by
  obtain ⟨repository, sourceFile, targetFile, externalTarget, kind, specifier, line⟩ := e
  exact ((h.field (hsub _ (by simp [entries])) (.text repository)).map Edge.mk)
    |>.seq (h.field (hsub _ (by simp [entries])) (.int64 sourceFile))
    |>.seq (h.field (hsub _ (by simp [entries])) (.option (by simp [int]) fun t _ => .int64 t))
    |>.seq (h.field (hsub _ (by simp [entries])) (.option (by simp) fun s _ => .text s))
    |>.seq (h.field (hsub _ (by simp [entries])) (.text kind))
    |>.seq (h.field (hsub _ (by simp [entries])) (.text specifier))
    |>.seq (h.field (hsub _ (by simp [entries])) (.uint32 line))

theorem Edge.readBack (e : Edge) : ReadBack Edge.ofJson e.toJson e :=
  .record (by simp [entries]) fun _ h => takes h fun _ he => he

theorem StoredEdge.readBack (e : StoredEdge) : ReadBack StoredEdge.ofJson e.toJson e := by
  obtain ⟨edge, id⟩ := e
  refine .record (by simp [Edge.entries]) fun gs h => ?_
  exact ((h.field (by simp) (.int64 id)).map fun id e => StoredEdge.mk e id)
    |>.seq (Edge.takes h fun _ he => List.mem_cons_of_mem _ he)

/-! ## Counts of languages -/

/-- The value under a key is the one that was written there, in another order. -/
theorem Json.Reordered.get? {key : String} {v : Json} (h : Reordered (.object es) w)
    (hdistinct : (es.map (·.1)).Nodup) (hmem : (key, v) ∈ es) :
    ∃ u, w.get? key = some u ∧ Reordered v u := by
  obtain ⟨gs, rfl, hshuffled⟩ := h.shuffled hdistinct
  obtain ⟨u, hu, hreordered⟩ := hshuffled.holds hmem
  exact ⟨u, hu.lookup, hreordered⟩

namespace Breakdown

theorem ofJson_toJson {b : Breakdown} (h : b.Distinct) : Breakdown.ofJson b.toJson = .ok b := by
  have hread : (b.map fun e => (e.1, nat e.2.toNat)).mapM
      (fun e => do return (e.1, ← readCount e.2) : String × Json → Except Issue _) = .ok b := by
    refine mapM_eq_ok ?_
    rw [List.forall₂_map_left_iff, List.forall₂_same]
    intro e _
    simp only [ReadBack.count e.2 _ (.same _), bind, Except.bind, pure, Except.pure]
  have hput : Breakdown.ofPairs b = b := foldl_put [] b (by simpa using h)
  rw [toJson, Breakdown.ofJson, hread]
  exact congrArg Except.ok hput

/-- The same counts in another order are counts in that order. -/
theorem reordered {b : Breakdown} (h : b.Distinct) (hw : Reordered b.toJson w) :
    ∃ b' : Breakdown, b'.Perm b ∧ w = b'.toJson := by
  have hkeys : (b.map fun e => (e.1, nat e.2.toNat)).map (·.1) = b.map (·.1) := by simp
  obtain ⟨gs, rfl, hshuffled⟩ := hw.shuffled (hkeys ▸ h)
  have hgs : (gs.map (·.1)).Nodup := hshuffled.keys.nodup_iff.2 hshuffled.distinct
  have hperm : gs.Perm (b.map fun e => (e.1, nat e.2.toNat)) := by
    rw [List.perm_ext_iff_of_nodup (.of_map _ hgs) (.of_map _ hshuffled.distinct)]
    -- One of the two has what the other has: a number has no order that could differ.
    have hsame : ∀ k v u, (k, v) ∈ (b.map fun e => (e.1, nat e.2.toNat)) → (k, u) ∈ gs →
        v = u := by
      intro k v u hv hu
      have hvu := hshuffled.values k v u hv hu
      obtain ⟨e, -, he⟩ := List.mem_map.1 hv
      obtain ⟨-, rfl⟩ := Prod.mk.inj he
      cases hvu
      rfl
    rintro ⟨k, u⟩
    constructor
    · intro hu
      have hk := hshuffled.keys.mem_iff.1 (List.mem_map_of_mem hu)
      obtain ⟨⟨k', v⟩, hv, rfl⟩ := List.mem_map.1 hk
      exact hsame _ v u hv hu ▸ hv
    · intro hv
      obtain ⟨u', hu', -⟩ := hshuffled.holds hv
      exact hsame k u u' hv hu'.1 ▸ hu'.1
  have hfrom : List.Forall₂ (fun e (p : String × UInt64) => e = (p.1, nat p.2.toNat))
      (b.map fun e => (e.1, nat e.2.toNat)) b := by
    rw [List.forall₂_map_left_iff, List.forall₂_same]
    intro e _
    rfl
  obtain ⟨b', hb', hpermb⟩ := List.perm_comp_forall₂ hperm hfrom
  refine ⟨b', hpermb, ?_⟩
  have heq : gs = b'.map fun e => (e.1, nat e.2.toNat) := by
    rw [← List.forall₂_eq_eq_eq, List.forall₂_map_right_iff]
    exact hb'
  rw [heq, toJson]

theorem Distinct.perm {b b' : Breakdown} (h : b.Distinct) (hb : b'.Perm b) : b'.Distinct :=
  (List.Perm.map Prod.fst hb).nodup_iff.2 h

/-- Counts are read back in the order of the value. -/
theorem ofJson_reordered {b : Breakdown} (h : b.Distinct) (hw : Reordered b.toJson w) :
    ∃ b' : Breakdown, b'.Perm b ∧ Breakdown.ofJson w = .ok b' := by
  obtain ⟨b', hb, rfl⟩ := reordered h hw
  exact ⟨b', hb, ofJson_toJson (h.perm hb)⟩

end Breakdown

/-! ## Repositories and updates -/

/-- All of a repository but the counts of its languages is read back, and these as they are. -/
theorem Repository.ofJson_reordered {r : Repository} (hw : Reordered r.toJson w) {b : Breakdown}
    (hb : ∀ v, w.get? "language_breakdown" = some v → Breakdown.ofJson v = .ok b) :
    Repository.ofJson w = .ok { r with languages := b } := by
  obtain ⟨id, status, storagePath, primaryLanguage, totalFiles, totalSize, languages, error⟩ := r
  obtain ⟨gs, rfl, h⟩ := hw.shuffled (by simp)
  obtain ⟨v, hv, -⟩ := h.holds (show ("language_breakdown", languages.toJson) ∈ _ by simp)
  have htakes : Takes Repository.fields gs
      ⟨id, status, storagePath, primaryLanguage, totalFiles, totalSize, b, error⟩ :=
    ((h.field (by simp) (.text id)).map Repository.mk)
      |>.seq (h.field (by simp) status.readBack)
      |>.seq (h.field (by simp) (.option (by simp) fun s _ => .text s))
      |>.seq (h.field (by simp) (.option (by simp) fun s _ => .text s))
      |>.seq (h.field (by simp) (.count totalFiles))
      |>.seq (h.field (by simp) (.uint64 totalSize))
      |>.seq (.holds hv (hb v hv.lookup))
      |>.seq (h.field (by simp) (.option (by simp) fun s _ => .text s))
  exact htakes.ofEntries

theorem Repository.readBack {r : Repository} (h : r.languages.Distinct) :
    Repository.ofJson r.toJson = .ok r ∧ ∀ w, Reordered r.toJson w →
      ∃ b : Breakdown, b.Perm r.languages ∧
        Repository.ofJson w = .ok { r with languages := b } := by
  constructor
  · refine ofJson_reordered (.same _) fun v hv => ?_
    obtain rfl : r.languages.toJson = v := by simpa [toJson, Json.get?, lookup] using hv
    exact Breakdown.ofJson_toJson h
  · intro w hw
    obtain ⟨u, hu, hreordered⟩ := hw.get? (by simp)
      (show ("language_breakdown", r.languages.toJson) ∈ _ by simp)
    obtain ⟨b, hb, hread⟩ := Breakdown.ofJson_reordered h hreordered
    refine ⟨b, hb, ofJson_reordered hw fun v hv => ?_⟩
    obtain rfl := Option.some.inj (hu.symm.trans hv)
    exact hread

/-- All of an update but the counts of languages is read back, and these as they are. -/
theorem RepositoryUpdate.ofJson_reordered {u : RepositoryUpdate} (hw : Reordered u.toJson w)
    {o : Option Breakdown}
    (ho : ∀ v, w.get? "language_breakdown" = some v → readOption Breakdown.ofJson v = .ok o) :
    RepositoryUpdate.ofJson w = .ok { u with languages := o } := by
  obtain ⟨status, storagePath, primaryLanguage, totalFiles, totalSize, languages, error⟩ := u
  obtain ⟨gs, rfl, h⟩ := hw.shuffled (by simp)
  obtain ⟨v, hv, -⟩ :=
    h.holds (show ("language_breakdown", orNull Breakdown.toJson languages) ∈ _ by simp)
  have htakes : Takes RepositoryUpdate.fields gs
      ⟨status, storagePath, primaryLanguage, totalFiles, totalSize, o, error⟩ :=
    ((h.field (by simp) (.option (by simp) fun s _ => s.readBack)).map RepositoryUpdate.mk)
      |>.seq (h.field (by simp) (.option (by simp) fun s _ => .text s))
      |>.seq (h.field (by simp) (.option (by simp) fun s _ => .text s))
      |>.seq (h.field (by simp) (.option (by simp [nat, int]) fun n _ => .count n))
      |>.seq (h.field (by simp) (.option (by simp [nat, int]) fun n _ => .uint64 n))
      |>.seq (.holds hv (ho v hv.lookup))
      |>.seq (h.field (by simp) (.option (by simp) fun s _ => .text s))
  exact htakes.ofEntries

/-- Counts that may lack are read back in the order of the value, where they are there. -/
theorem Breakdown.readOption_reordered {o : Option Breakdown} (h : ∀ b ∈ o, b.Distinct)
    (hw : Reordered (orNull Breakdown.toJson o) w) :
    ∃ o' : Option Breakdown, Option.Rel List.Perm o' o ∧
      readOption Breakdown.ofJson w = .ok o' := by
  cases o with
  | none =>
    cases hw
    exact ⟨none, .none, rfl⟩
  | some b =>
    obtain ⟨b', hb, rfl⟩ := Breakdown.reordered (h b rfl) hw
    refine ⟨some b', .some hb, ?_⟩
    change some <$> Breakdown.ofJson b'.toJson = _
    rw [ofJson_toJson ((h b rfl).perm hb)]
    rfl

theorem RepositoryUpdate.readBack {u : RepositoryUpdate} (h : ∀ b ∈ u.languages, b.Distinct) :
    RepositoryUpdate.ofJson u.toJson = .ok u ∧ ∀ w, Reordered u.toJson w →
      ∃ o, Option.Rel List.Perm o u.languages ∧
        RepositoryUpdate.ofJson w = .ok { u with languages := o } := by
  constructor
  · refine ofJson_reordered (.same _) fun v hv => ?_
    obtain rfl : orNull Breakdown.toJson u.languages = v := by
      simpa [toJson, Json.get?, lookup] using hv
    cases hl : u.languages with
    | none => rfl
    | some b =>
      change some <$> Breakdown.ofJson b.toJson = _
      rw [Breakdown.ofJson_toJson (h b hl)]
      rfl
  · intro w hw
    obtain ⟨v, hv, hreordered⟩ := hw.get? (by simp)
      (show ("language_breakdown", orNull Breakdown.toJson u.languages) ∈ _ by simp)
    obtain ⟨o, ho, hread⟩ := Breakdown.readOption_reordered h hreordered
    refine ⟨o, ho, ofJson_reordered hw fun x hx => ?_⟩
    obtain rfl := Option.some.inj (hv.symm.trans hx)
    exact hread

/-! ## Discovery -/

theorem FoundFile.readBack (f : FoundFile) : ReadBack FoundFile.ofJson f.toJson f := by
  obtain ⟨path, relativePath, language, size, extension⟩ := f
  refine .record (by simp) fun gs h => ?_
  exact ((h.field (by simp) (.path path)).map FoundFile.mk)
    |>.seq (h.field (by simp) (.text relativePath))
    |>.seq (h.field (by simp) (.text language))
    |>.seq (h.field (by simp) (.uint64 size))
    |>.seq (h.field (by simp) (.text extension))

theorem DiscoveryTotals.ofJson_reordered {t : DiscoveryTotals} (hw : Reordered t.toJson w)
    {b : Breakdown} (hb : ∀ v, w.get? "languages" = some v → Breakdown.ofJson v = .ok b) :
    DiscoveryTotals.ofJson w = .ok { t with languages := b } := by
  obtain ⟨files, size, languages⟩ := t
  obtain ⟨gs, rfl, h⟩ := hw.shuffled (by simp)
  obtain ⟨v, hv, -⟩ := h.holds (show ("languages", languages.toJson) ∈ _ by simp)
  have htakes : Takes DiscoveryTotals.fields gs ⟨files, size, b⟩ :=
    ((h.field (by simp) (.count files)).map DiscoveryTotals.mk)
      |>.seq (h.field (by simp) (.uint64 size))
      |>.seq (.holds hv (hb v hv.lookup))
  exact htakes.ofEntries

theorem DiscoveryTotals.readBack {t : DiscoveryTotals} (h : t.languages.Distinct) :
    DiscoveryTotals.ofJson t.toJson = .ok t ∧ ∀ w, Reordered t.toJson w →
      ∃ b : Breakdown, b.Perm t.languages ∧
        DiscoveryTotals.ofJson w = .ok { t with languages := b } := by
  constructor
  · refine ofJson_reordered (.same _) fun v hv => ?_
    obtain rfl : t.languages.toJson = v := by simpa [toJson, Json.get?, lookup] using hv
    exact Breakdown.ofJson_toJson h
  · intro w hw
    obtain ⟨u, hu, hreordered⟩ := hw.get? (by simp)
      (show ("languages", t.languages.toJson) ∈ _ by simp)
    obtain ⟨b, hb, hread⟩ := Breakdown.ofJson_reordered h hreordered
    refine ⟨b, hb, ofJson_reordered hw fun v hv => ?_⟩
    obtain rfl := Option.some.inj (hu.symm.trans hv)
    exact hread

theorem Discovered.ofJson_reordered {d : Discovered} (hw : Reordered d.toJson w)
    {t : DiscoveryTotals}
    (ht : ∀ v, w.get? "stats" = some v → DiscoveryTotals.ofJson v = .ok t) :
    Discovered.ofJson w = .ok { d with totals := t } := by
  obtain ⟨files, totals⟩ := d
  obtain ⟨gs, rfl, h⟩ := hw.shuffled (by simp)
  obtain ⟨v, hv, -⟩ := h.holds (show ("stats", totals.toJson) ∈ _ by simp)
  have htakes : Takes Discovered.fields gs ⟨files, t⟩ :=
    ((h.field (by simp) (.list fun f _ => f.readBack)).map Discovered.mk)
      |>.seq (.holds hv (ht v hv.lookup))
  exact htakes.ofEntries

theorem Discovered.readBack {d : Discovered} (h : d.totals.languages.Distinct) :
    Discovered.ofJson d.toJson = .ok d ∧ ∀ w, Reordered d.toJson w →
      ∃ b : Breakdown, b.Perm d.totals.languages ∧
        Discovered.ofJson w = .ok { d with totals.languages := b } := by
  obtain ⟨hexact, hany⟩ := DiscoveryTotals.readBack h
  constructor
  · refine ofJson_reordered (.same _) fun v hv => ?_
    obtain rfl : d.totals.toJson = v := by simpa [toJson, Json.get?, lookup] using hv
    exact hexact
  · intro w hw
    obtain ⟨u, hu, hreordered⟩ := hw.get? (by simp) (show ("stats", d.totals.toJson) ∈ _ by simp)
    obtain ⟨b, hb, hread⟩ := hany u hreordered
    refine ⟨b, hb, ofJson_reordered hw fun v hv => ?_⟩
    obtain rfl := Option.some.inj (hu.symm.trans hv)
    exact hread

/-! ## Jobs -/

/-- All of a request but its payload is read back, and this as it is. -/
theorem JobRequest.ofJson_reordered {r : JobRequest} (hw : Reordered r.toJson w) {p : Json}
    (hp : w.get? "payload" = some p) : JobRequest.ofJson w = .ok { r with payload := p } := by
  obtain ⟨type, repository, payload⟩ := r
  obtain ⟨gs, rfl, h⟩ := hw.shuffled (by simp)
  obtain ⟨v, hv, -⟩ := h.holds (show ("payload", payload) ∈ _ by simp)
  obtain rfl := Option.some.inj (hv.lookup.symm.trans hp)
  have htakes : Takes JobRequest.fields gs ⟨type, repository, v⟩ :=
    ((h.field (by simp) (.text type)).map JobRequest.mk)
      |>.seq (h.field (by simp) (.text repository))
      |>.seq (.holds hv rfl)
  exact htakes.ofEntries

theorem JobRequest.readBack (r : JobRequest) :
    JobRequest.ofJson r.toJson = .ok r ∧ ∀ w, Reordered r.toJson w →
      ∃ p, Reordered r.payload p ∧ JobRequest.ofJson w = .ok { r with payload := p } := by
  constructor
  · exact ofJson_reordered (.same _) (by simp [toJson, Json.get?, lookup])
  · intro w hw
    obtain ⟨p, hp, hreordered⟩ := hw.get? (by simp) (show ("payload", r.payload) ∈ _ by simp)
    exact ⟨p, hreordered, ofJson_reordered hw hp⟩

/-! ## Tagged records -/

theorem Json.readTagged_object {α : Type} {tag name s title : String} {fields : Fields α}
    {kinds : List (String × String × Fields α)} {a : α} (htag : Holds gs tag (.text s))
    (hkind : kinds.find? (·.1 == s) = some (s, title, fields))
    (h : Takes fields (gs.filter (·.1 != tag)) a) :
    readTagged tag name kinds (.object gs) = .ok a := by
  simp only [readTagged, htag.lookup, readTagged.kindOf, hkind, bind, Except.bind]
  exact h.ofEntries

/-- The entries without those of one key are shuffled as well. -/
theorem Json.Shuffled.without (h : Shuffled es gs) (tag : String) :
    Shuffled (es.filter (·.1 != tag)) (gs.filter (·.1 != tag)) := by
  have hkeys : ∀ xs : List (String × Json),
      (xs.filter (·.1 != tag)).map (·.1) = (xs.map (·.1)).filter (· != tag) := by
    intro xs
    rw [List.filter_map]
    rfl
  refine ⟨hkeys es ▸ h.distinct.filter _, ?_, fun k v w hv hw => ?_⟩
  · rw [hkeys, hkeys]
    exact h.keys.filter _
  · exact h.values k v w (List.mem_filter.1 hv).1 (List.mem_filter.1 hw).1

/-- A tagged record is read back when the tag names its kind and the fields of that find the other
entries. -/
theorem Json.ReadBack.tagged {α : Type} {tag name s title : String} {fields : Fields α}
    {kinds : List (String × String × Fields α)} {a : α} (hdistinct : (es.map (·.1)).Nodup)
    (htag : (tag, .text s) ∈ es) (hkind : kinds.find? (·.1 == s) = some (s, title, fields))
    (h : ∀ gs, Shuffled (es.filter (·.1 != tag)) gs → Takes fields gs a) :
    ReadBack (readTagged tag name kinds) (.object es) a := by
  intro w hw
  obtain ⟨gs, rfl, hshuffled⟩ := hw.shuffled hdistinct
  obtain ⟨_, hs, ⟨⟩⟩ := hshuffled.holds htag
  exact readTagged_object hs hkind (h _ (hshuffled.without tag))

theorem JobEvent.readBack (e : JobEvent) : ReadBack JobEvent.ofJson e.toJson e := by
  cases e with
  | enqueued job repository =>
    refine .tagged (by simp) List.mem_cons_self rfl fun gs h => ?_
    exact ((h.field (by simp) (.text job)).map enqueued)
      |>.seq (h.field (by simp) (.text repository))
  | started job =>
    refine .tagged (by simp) List.mem_cons_self rfl fun gs h => ?_
    exact (h.field (by simp) (.text job)).map started
  | progress job value =>
    refine .tagged (by simp) List.mem_cons_self rfl fun gs h => ?_
    exact ((h.field (by simp) (.text job)).map progress)
      |>.seq (h.field (by simp) (.uint8 value))
  | completed job =>
    refine .tagged (by simp) List.mem_cons_self rfl fun gs h => ?_
    exact (h.field (by simp) (.text job)).map completed
  | failed job error =>
    refine .tagged (by simp) List.mem_cons_self rfl fun gs h => ?_
    exact ((h.field (by simp) (.text job)).map failed)
      |>.seq (h.field (by simp) (.text error))

/-! ## Sources in payloads -/

/-- The keys that tell a source in a payload. -/
def RepositorySource.keys : List String := ["source", "url", "ref", "path"]

/-- A source is read from an object that has its entries, in any order, and whatever else under
other keys. -/
theorem RepositorySource.ofJson_object {s : RepositorySource} {all : List (String × Json)}
    (hw : Reordered s.toJson (.object gs))
    (hall : ∀ key ∈ keys, ∀ u, (key, u) ∈ all ↔ (key, u) ∈ gs) :
    RepositorySource.ofJson (.object all) = .ok s := by
  have hrest : ∀ key ∈ keys, key ≠ "source" → ∀ u,
      (key, u) ∈ all.filter (·.1 != "source") ↔ (key, u) ∈ gs := by
    intro key hkey hne u
    rw [List.mem_filter, hall key hkey u]
    simp [hne]
  have hsource : ∀ {u}, Holds gs "source" u → Holds all "source" u :=
    (holds_congr (hall "source" (by decide))).2
  have hfield : ∀ {key t} {read : Reads String}, Holds gs key (.text t) → key ∈ keys →
      key ≠ "source" → read (.text t) = .ok t →
        Takes (required key read) (all.filter (·.1 != "source")) t :=
    fun hheld hkey hne hread => .holds ((holds_congr (hrest _ hkey hne)).2 hheld) hread
  cases s with
  | git url reference =>
    obtain ⟨_, ⟨⟩, h⟩ := hw.shuffled (by cases reference <;> simp)
    obtain ⟨_, htag, ⟨⟩⟩ := h.holds (show ("source", .text "git") ∈ _ by simp)
    obtain ⟨_, hurl, ⟨⟩⟩ := h.holds (show ("url", .text url) ∈ _ by simp)
    have hreference : Takes (defaulted "ref" (readOption readText) none)
        (all.filter (·.1 != "source")) reference := by
      have hkey := hrest "ref" (by decide) (by decide)
      cases reference with
      | none => exact .lacks ((lacks_congr hkey).2 (h.lacks (by simp)))
      | some r =>
        obtain ⟨_, href, ⟨⟩⟩ := h.holds (show ("ref", .text r) ∈ _ by simp)
        exact .holds ((holds_congr hkey).2 href) rfl
    have htext : Takes (required "url" readText) _ url := hfield hurl (by decide) (by decide) rfl
    exact readTagged_object (hsource htag) rfl ((htext.map git).seq hreference)
  | archive path =>
    obtain ⟨_, ⟨⟩, h⟩ := hw.shuffled (by simp)
    obtain ⟨_, htag, ⟨⟩⟩ := h.holds (show ("source", .text "archive") ∈ _ by simp)
    obtain ⟨_, hpath, ⟨⟩⟩ := h.holds (show ("path", .text path) ∈ _ by simp)
    have htext : Takes (required "path" readPath) _ path := hfield hpath (by decide) (by decide) rfl
    exact readTagged_object (hsource htag) rfl (htext.map archive)
  | directory path =>
    obtain ⟨_, ⟨⟩, h⟩ := hw.shuffled (by simp)
    obtain ⟨_, htag, ⟨⟩⟩ := h.holds (show ("source", .text "local") ∈ _ by simp)
    obtain ⟨_, hpath, ⟨⟩⟩ := h.holds (show ("path", .text path) ∈ _ by simp)
    have htext : Takes (required "path" readPath) _ path := hfield hpath (by decide) (by decide) rfl
    exact readTagged_object (hsource htag) rfl (htext.map directory)

/-- A payload still tells its source when objects without the keys of a source were merged into
it. -/
theorem RepositorySource.sourceOf_merged {s : RepositorySource} (hw : Reordered s.toJson w)
    {extras : List (List (String × Json))} (hextras : ∀ es ∈ extras, ∀ e ∈ es, e.1 ∉ keys) :
    Analyzer.sourceOf ((extras.map Json.object).foldl merge w) = .ok s := by
  obtain ⟨gs, rfl⟩ : ∃ gs, w = .object gs := by
    cases s <;> cases hw <;> exact ⟨_, rfl⟩
  obtain ⟨all, hall, hkeys⟩ := foldl_merge gs extras
  have hread : RepositorySource.ofJson (.object all) = .ok s := by
    refine ofJson_object hw fun key hkey => hkeys key fun es hes e he => ?_
    rintro rfl
    exact hextras es hes e he hkey
  rw [hall, Analyzer.sourceOf, hread]

/-! ## All records -/

/-- Each record is read back from its own value in whatever order the entries of that stand. Counts
of languages come back in the order of the value, and a payload as it is there; in the value as it
was written that is the record itself. A payload tells its source also behind extras. -/
theorem records_are_read_back :
    ((∀ p : Parameter, ReadBack Parameter.ofJson p.toJson p) ∧
      (∀ f : Fact, ReadBack Fact.ofJson f.toJson f) ∧
      (∀ i : Import, ReadBack Import.ofJson i.toJson i) ∧
      (∀ e : Export, ReadBack Export.ofJson e.toJson e) ∧
      (∀ f : Features, ReadBack Features.ofJson f.toJson f) ∧
      ∀ f : FileFacts, ReadBack FileFacts.ofJson f.toJson f) ∧
    ((∀ f : NewFile, ReadBack NewFile.ofJson f.toJson f) ∧
      (∀ f : StoredFile, ReadBack StoredFile.ofJson f.toJson f) ∧
      (∀ f : StoredFact, ReadBack StoredFact.ofJson f.toJson f) ∧
      (∀ e : Edge, ReadBack Edge.ofJson e.toJson e) ∧
      ∀ e : StoredEdge, ReadBack StoredEdge.ofJson e.toJson e) ∧
    (∀ u : RepositoryUpdate, (∀ b ∈ u.languages, b.Distinct) →
      RepositoryUpdate.ofJson u.toJson = .ok u ∧ ∀ w, Reordered u.toJson w →
        ∃ o, Option.Rel List.Perm o u.languages ∧
          RepositoryUpdate.ofJson w = .ok { u with languages := o }) ∧
    (∀ r : Repository, r.languages.Distinct →
      Repository.ofJson r.toJson = .ok r ∧ ∀ w, Reordered r.toJson w →
        ∃ b : Breakdown, b.Perm r.languages ∧
          Repository.ofJson w = .ok { r with languages := b }) ∧
    (∀ d : Discovered, d.totals.languages.Distinct →
      Discovered.ofJson d.toJson = .ok d ∧ ∀ w, Reordered d.toJson w →
        ∃ b : Breakdown, b.Perm d.totals.languages ∧
          Discovered.ofJson w = .ok { d with totals.languages := b }) ∧
    (∀ r : JobRequest, JobRequest.ofJson r.toJson = .ok r ∧ ∀ w, Reordered r.toJson w →
      ∃ p, Reordered r.payload p ∧ JobRequest.ofJson w = .ok { r with payload := p }) ∧
    (∀ e : JobEvent, ReadBack JobEvent.ofJson e.toJson e) ∧
    ∀ (s : RepositorySource) (w : Json), Reordered s.toJson w →
      ∀ extras : List (List (String × Json)),
        (∀ es ∈ extras, ∀ e ∈ es, e.1 ∉ ["source", "url", "ref", "path"]) →
          Analyzer.sourceOf ((extras.map Json.object).foldl merge w) = .ok s := by
  refine ⟨⟨Parameter.readBack, Fact.readBack, Import.readBack, Export.readBack, Features.readBack,
    FileFacts.readBack⟩, ⟨NewFile.readBack, StoredFile.readBack, StoredFact.readBack,
    Edge.readBack, StoredEdge.readBack⟩, ?_, ?_, ?_, JobRequest.readBack, JobEvent.readBack, ?_⟩
  · exact fun u h => RepositoryUpdate.readBack h
  · exact fun r h => Repository.readBack h
  · exact fun d h => Discovered.readBack h
  · exact fun s w hw extras hextras => RepositorySource.sourceOf_merged hw hextras

/-! ## A repository and its source -/

namespace RecordSamples

def languages : Breakdown := [("rust", 2), ("go", 1)]

def repository : Repository := { Repository.fresh "r" with languages := languages }

def update : RepositoryUpdate :=
  { RepositoryUpdate.toStatus .completed with languages := some languages }

def discovered : Discovered := ⟨[⟨"/r/a.rs", "a.rs", "rust", 7, "rs"⟩], ⟨3, 9, languages⟩⟩

theorem distinct : languages.Distinct := by
  show (["rust", "go"] : List String).Nodup
  decide

/-- The value of a source as a map holds it, its keys in order. -/
def source : Json := .object [("path", .text "/tmp"), ("source", .text "local")]

theorem source_reordered : Reordered (RepositorySource.directory "/tmp").toJson source := by
  refine .object (.swap _ _ _) fun k v w hv hw => ?_
  have hvalue : v = w := by
    simp only [List.mem_cons, Prod.mk.injEq, List.not_mem_nil, or_false] at hv hw
    rcases hv with ⟨rfl, rfl⟩ | ⟨rfl, rfl⟩
    · simp only [String.reduceEq, false_and, true_and, false_or] at hw
      exact hw.symm
    · simp only [String.reduceEq, false_and, true_and, or_false] at hw
      exact hw.symm
  exact hvalue ▸ .same v

/-- What a job tells on its way, merged one after the other. -/
def extras : List (List (String × Json)) :=
  [[("files_discovered", nat 3), ("a", .null)], [("zeta", .text "\"")]]

end RecordSamples

open RecordSamples in
/-- Records with two languages are read back, and a source behind extras. -/
theorem records_with_languages_are_read_back :
    languages.Distinct ∧ Repository.ofJson repository.toJson = .ok repository ∧
      RepositoryUpdate.ofJson update.toJson = .ok update ∧
      Discovered.ofJson discovered.toJson = .ok discovered ∧
      Reordered (RepositorySource.directory "/tmp").toJson source ∧
      Analyzer.sourceOf ((extras.map Json.object).foldl merge source) =
        .ok (.directory "/tmp") := by
  obtain ⟨-, -, hupdate, hrepository, hdiscovered, -, -, hsource⟩ := records_are_read_back
  refine ⟨distinct, (hrepository repository distinct).1, (hupdate update ?_).1,
    (hdiscovered discovered distinct).1, source_reordered,
    hsource _ source source_reordered extras (by decide)⟩
  intro b hb
  obtain rfl := Option.some.inj hb
  exact distinct

/-! ## Texts of records -/

section Plain

variable {n : Nat}

@[simp] theorem Parameter.plain_toJson (p : Parameter) : Plain (n + 1) p.toJson := by
  obtain ⟨name, writtenType, isOptional, defaultValue⟩ := p
  cases writtenType <;> cases defaultValue <;> simp [toJson]

@[simp] theorem Fact.plain_toJson (f : Fact) : Plain (n + 3) f.toJson := by simp [toJson, entries]

@[simp] theorem Import.plain_toJson (i : Import) : Plain (n + 2) i.toJson := by simp [toJson]

@[simp] theorem Export.plain_toJson (e : Export) : Plain (n + 1) e.toJson := by simp [toJson]

@[simp] theorem Features.plain_toJson (f : Features) : Plain (n + 1) f.toJson := by simp [toJson]

theorem FileFacts.plain_toJson (f : FileFacts) : Plain (n + 5) f.toJson := by simp [toJson]

theorem NewFile.plain_toJson (f : NewFile) : Plain (n + 1) f.toJson := by simp [toJson, entries]

theorem StoredFile.plain_toJson (f : StoredFile) : Plain (n + 1) f.toJson := by
  simp [toJson, NewFile.entries]

theorem StoredFact.plain_toJson (f : StoredFact) : Plain (n + 3) f.toJson := by
  simp [toJson, Fact.entries]

theorem Edge.plain_toJson (e : Edge) : Plain (n + 1) e.toJson := by simp [toJson, entries]

theorem StoredEdge.plain_toJson (e : StoredEdge) : Plain (n + 1) e.toJson := by
  simp [toJson, Edge.entries]

theorem Breakdown.plain_toJson {b : Breakdown} (h : b.Distinct) : Plain (n + 1) b.toJson := by
  have hkeys : (b.map fun e => (e.1, nat e.2.toNat)).map (·.1) = b.map (·.1) := by simp
  refine .object (hkeys ▸ h) fun e he => ?_
  obtain ⟨_, -, rfl⟩ := List.mem_map.1 he
  simp

theorem Repository.plain_toJson {r : Repository} (h : r.languages.Distinct) :
    Plain (n + 2) r.toJson := by
  simp [toJson, Breakdown.plain_toJson h]

theorem RepositoryUpdate.plain_toJson {u : RepositoryUpdate} (h : ∀ b ∈ u.languages, b.Distinct) :
    Plain (n + 2) u.toJson := by
  have hlanguages : ∀ b ∈ u.languages, Plain (n + 1) b.toJson := fun b hb =>
    Breakdown.plain_toJson (h b hb)
  simpa [toJson] using hlanguages

@[simp] theorem FoundFile.plain_toJson (f : FoundFile) : Plain (n + 1) f.toJson := by simp [toJson]

theorem DiscoveryTotals.plain_toJson {t : DiscoveryTotals} (h : t.languages.Distinct) :
    Plain (n + 2) t.toJson := by
  simp [toJson, Breakdown.plain_toJson h]

theorem Discovered.plain_toJson {d : Discovered} (h : d.totals.languages.Distinct) :
    Plain (n + 3) d.toJson := by
  simp [toJson, DiscoveryTotals.plain_toJson h]

theorem JobRequest.plain_toJson {r : JobRequest} (h : Plain n r.payload) :
    Plain (n + 1) r.toJson := by
  simp [toJson, h]

theorem JobEvent.plain_toJson (e : JobEvent) : Plain (n + 1) e.toJson := by
  cases e <;> simp [toJson]

theorem RepositorySource.plain_toJson (s : RepositorySource) : Plain (n + 1) s.toJson := by
  cases s with
  | git url reference => cases reference <;> simp [toJson]
  | archive path => simp [toJson]
  | directory path => simp [toJson]

end Plain

/-- Each record is read from its text, too. In between its value is held with the keys of objects in
order, so counts of languages come back in another order, and so does a payload, whose text must
tell it to begin with. -/
theorem records_are_read_from_texts :
    ((∀ p : Parameter, ReadFromText Parameter.ofJson p.toJson p) ∧
      (∀ f : Fact, ReadFromText Fact.ofJson f.toJson f) ∧
      (∀ i : Import, ReadFromText Import.ofJson i.toJson i) ∧
      (∀ e : Export, ReadFromText Export.ofJson e.toJson e) ∧
      (∀ f : Features, ReadFromText Features.ofJson f.toJson f) ∧
      ∀ f : FileFacts, ReadFromText FileFacts.ofJson f.toJson f) ∧
    ((∀ f : NewFile, ReadFromText NewFile.ofJson f.toJson f) ∧
      (∀ f : StoredFile, ReadFromText StoredFile.ofJson f.toJson f) ∧
      (∀ f : StoredFact, ReadFromText StoredFact.ofJson f.toJson f) ∧
      (∀ e : Edge, ReadFromText Edge.ofJson e.toJson e) ∧
      ∀ e : StoredEdge, ReadFromText StoredEdge.ofJson e.toJson e) ∧
    (∀ u : RepositoryUpdate, (∀ b ∈ u.languages, b.Distinct) →
      ∃ o, Option.Rel List.Perm o u.languages ∧
        ReadFromText RepositoryUpdate.ofJson u.toJson { u with languages := o }) ∧
    (∀ r : Repository, r.languages.Distinct → ∃ b : Breakdown, b.Perm r.languages ∧
      ReadFromText Repository.ofJson r.toJson { r with languages := b }) ∧
    (∀ d : Discovered, d.totals.languages.Distinct → ∃ b : Breakdown, b.Perm d.totals.languages ∧
      ReadFromText Discovered.ofJson d.toJson { d with totals.languages := b }) ∧
    (∀ (r : JobRequest) (n : Nat), Plain n r.payload → n + 1 < deepest →
      ∃ p, Reordered r.payload p ∧
        ReadFromText JobRequest.ofJson r.toJson { r with payload := p }) ∧
    (∀ e : JobEvent, ReadFromText JobEvent.ofJson e.toJson e) ∧
    ∀ s : RepositorySource, ∃ w, valueOf s.toJson.render = .ok w ∧ Analyzer.sourceOf w = .ok s := by
  have h1 : 0 + 1 < deepest := by decide
  have h2 : 0 + 2 < deepest := by decide
  have h3 : 0 + 3 < deepest := by decide
  have h5 : 0 + 5 < deepest := by decide
  refine ⟨⟨?_, ?_, ?_, ?_, ?_, ?_⟩, ⟨?_, ?_, ?_, ?_, ?_⟩, ?_, ?_, ?_, ?_, ?_, ?_⟩
  · exact fun p => p.readBack.fromText p.plain_toJson h1
  · exact fun f => f.readBack.fromText f.plain_toJson h3
  · exact fun i => i.readBack.fromText i.plain_toJson h2
  · exact fun e => e.readBack.fromText e.plain_toJson h1
  · exact fun f => f.readBack.fromText f.plain_toJson h1
  · exact fun f => f.readBack.fromText f.plain_toJson h5
  · exact fun f => f.readBack.fromText f.plain_toJson h1
  · exact fun f => f.readBack.fromText f.plain_toJson h1
  · exact fun f => f.readBack.fromText f.plain_toJson h3
  · exact fun e => e.readBack.fromText e.plain_toJson h1
  · exact fun e => e.readBack.fromText e.plain_toJson h1
  · intro u h
    obtain ⟨w, htext, hw⟩ := (RepositoryUpdate.plain_toJson h).valueOf h2
    obtain ⟨o, ho, hread⟩ := (RepositoryUpdate.readBack h).2 w hw
    exact ⟨o, ho, w, htext, hread⟩
  · intro r h
    obtain ⟨w, htext, hw⟩ := (Repository.plain_toJson h).valueOf h2
    obtain ⟨b, hb, hread⟩ := (Repository.readBack h).2 w hw
    exact ⟨b, hb, w, htext, hread⟩
  · intro d h
    obtain ⟨w, htext, hw⟩ := (Discovered.plain_toJson h).valueOf h3
    obtain ⟨b, hb, hread⟩ := (Discovered.readBack h).2 w hw
    exact ⟨b, hb, w, htext, hread⟩
  · intro r n h hn
    obtain ⟨w, htext, hw⟩ := (JobRequest.plain_toJson h).valueOf hn
    obtain ⟨p, hp, hread⟩ := r.readBack.2 w hw
    exact ⟨p, hp, w, htext, hread⟩
  · exact fun e => e.readBack.fromText e.plain_toJson h1
  · intro s
    obtain ⟨w, htext, hw⟩ := s.plain_toJson.valueOf h1
    exact ⟨w, htext, RepositorySource.sourceOf_merged hw (List.forall_mem_nil _)⟩

end CodeSurvey
