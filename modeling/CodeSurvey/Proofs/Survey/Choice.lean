-- Which surveyor reads a file, told from its extension. The registry, its surveyors and
-- the options of a survey agree on that, but for extensions with a blank behind the dots
-- in front: the registry cuts that off as well, and the others do not.
import CodeSurvey.Registry.Builtin
import CodeSurvey.Proofs.Text.Blank
import CodeSurvey.Proofs.Text.Casing

namespace CodeSurvey

open Text

/-! ## Normalized extensions -/

variable {ext : String}

/-- The extension without blanks around it and without the dots in front. -/
def stemOf (ext : String) : List Char := (trim ext.toList).dropWhile (· = '.')

/-- No blank follows the dots in front of the extension. -/
def IsPlain (ext : String) : Prop := ∀ c ∈ (stemOf ext).head?, isBlank c = false

theorem toList_normalizedExtension (ext : String) :
    (normalizedExtension ext).toList = lower (stemOf ext) := String.toList_ofList

theorem normalizedExtension_of_trimmed (h : trim ext.toList = ext.toList) :
    normalizedExtension ext = bareExtension ext := by
  rw [normalizedExtension, h, bareExtension]

theorem head?_stemOf (ext : String) : ∀ c ∈ (stemOf ext).head?, (c = '.' : Bool) = false := by
  intro c hc
  rw [stemOf, Option.mem_def] at hc
  have hnot := List.head?_dropWhile_not (· = '.') (trim ext.toList)
  rw [hc] at hnot
  exact hnot

theorem getLast?_stemOf (ext : String) : ∀ c ∈ (stemOf ext).getLast?, isBlank c = false := by
  intro c hc
  rw [stemOf, Option.mem_def] at hc
  have hdots := List.takeWhile_append_dropWhile (p := (· = '.')) (l := trim ext.toList)
  have hlast : (trim ext.toList).getLast? = some c := by
    rw [← hdots, List.getLast?_append, hc]
    rfl
  exact getLast?_dropAroundWhile hlast

/-- No dot is in front of a normalized extension, which is in lower case. -/
theorem bareExtension_normalizedExtension (ext : String) :
    bareExtension (normalizedExtension ext) = normalizedExtension ext := by
  have hdot : ∀ c : Char, (c = '.' : Bool) = true → isFixed c = true := by
    intro c hc
    rw [of_decide_eq_true hc]
    decide
  rw [bareExtension, toList_normalizedExtension,
    dropWhile_eq_self (head?_lower hdot (head?_stemOf ext)), lower_lower]
  rfl

/-- A plain extension is normalized once and for all. -/
theorem normalizedExtension_twice (h : IsPlain ext) :
    normalizedExtension (normalizedExtension ext) = normalizedExtension ext := by
  have hblank : ∀ c, isBlank c = true → isFixed c = true := fun c => isFixed_of_isBlank
  have htrim : trim (lower (stemOf ext)) = lower (stemOf ext) :=
    dropAroundWhile_eq_self (head?_lower hblank h) (getLast?_lower hblank (getLast?_stemOf ext))
  rw [← toList_normalizedExtension] at htrim
  rw [normalizedExtension_of_trimmed htrim, bareExtension_normalizedExtension]

/-- Any other one begins with a blank when it is normalized once. -/
theorem trim_normalizedExtension_ne (h : ¬ IsPlain ext) :
    trim (normalizedExtension ext).toList ≠ (normalizedExtension ext).toList := by
  intro htrim
  refine h fun c hc => Bool.eq_false_iff.2 fun hblank => ?_
  have hhead := head?_lower_of_isFixed (isFixed_of_isBlank hblank) hc
  rw [← toList_normalizedExtension, ← htrim] at hhead
  rw [head?_dropAroundWhile hhead] at hblank
  cases hblank

/-! ## Registries -/

theorem mem_insertText {s t : String} {ts : List String} :
    t ∈ insertText s ts ↔ t = s ∨ t ∈ ts := by
  induction ts with
  | nil => exact List.mem_singleton.trans (by simp)
  | cons u ts ih =>
    unfold insertText
    split
    · rename_i hsame
      simp [hsame]
    · split
      · exact List.mem_cons
      · rw [List.mem_cons, ih, List.mem_cons]
        exact or_left_comm

namespace Registry

variable {r : Registry}

/-- The extensions of a registry are those that its surveyors declare. -/
theorem mem_extensions : ext ∈ r.extensions ↔ ∃ s ∈ r.surveyors, ext ∈ s.extensions := by
  have hfold : ∀ (declared known : List String),
      ext ∈ declared.foldl (fun acc e => insertText e acc) known ↔ ext ∈ declared ∨ ext ∈ known := by
    intro declared
    induction declared with
    | nil => simp
    | cons e declared ih =>
      intro known
      rw [List.foldl_cons, ih, mem_insertText, List.mem_cons]
      exact or_left_comm.trans or_assoc.symm
  rw [extensions, hfold]
  simp

/-- The extensions are declared without blanks around them. -/
def DeclaresTrimmed (r : Registry) : Prop :=
  ∀ s ∈ r.surveyors, ∀ e ∈ s.extensions, trim e.toList = e.toList

/-- The registry, its surveyors and the options of a survey agree on an extension: the first surveyor
that takes it is chosen; there is one just when it is listed as normalized; and that is told to the
one that is chosen, which has declared it. -/
structure AgreesOn (r : Registry) (ext : String) : Prop where
  first : r.surveyorFor ext = r.surveyors.find? (·.supports ext)
  listed : r.supports ext = true ↔ normalizedExtension ext ∈ r.extensions
  told : ∀ s, r.surveyorFor ext = some s → (SurveyOptions.forExtension ext).extension ∈ s.extensions

theorem find?_supports_eq_none_iff :
    r.surveyors.find? (·.supports ext) = none ↔ normalizedExtension ext ∉ r.extensions := by
  rw [mem_extensions, List.find?_eq_none]
  simp [Surveyor.supports]

theorem agreesOn_of_first (h : r.surveyorFor ext = r.surveyors.find? (·.supports ext)) :
    r.AgreesOn ext := by
  refine ⟨h, ?_, fun s hs => ?_⟩
  · rw [supports, h, Option.isSome_iff_ne_none, ne_eq, find?_supports_eq_none_iff, not_not]
  · rw [h] at hs
    have htakes := List.find?_some hs
    exact List.contains_iff_mem.1 htakes

/-- The registry normalizes the extension before its surveyors do. -/
theorem surveyorFor_eq (r : Registry) (ext : String) : r.surveyorFor ext =
    r.surveyors.find? (·.extensions.contains (normalizedExtension (normalizedExtension ext))) := rfl

theorem agreesOn_of_isPlain (h : IsPlain ext) (r : Registry) : r.AgreesOn ext := by
  refine agreesOn_of_first ?_
  rw [surveyorFor_eq, normalizedExtension_twice h]
  rfl

/-- The registry, its surveyors and the options of a survey agree on an extension, whatever is
registered, unless a blank follows the dots in front of it and the registry takes it all the same.
No surveyor takes one with such a blank, it is not listed, and the options tell what none declared;
but the registry chooses the first surveyor that declared the rest. The plain dialect of TypeScript
is told by just three normalized extensions. -/
theorem agrees_unless_blank_behind_dots (h : r.DeclaresTrimmed) (ext : String) :
    (r.AgreesOn ext ↔ IsPlain ext ∨ r.surveyorFor ext = none) ∧
    (¬ IsPlain ext →
      r.surveyors.find? (·.supports ext) = none ∧ normalizedExtension ext ∉ r.extensions ∧
      (∀ s ∈ r.surveyors, (SurveyOptions.forExtension ext).extension ∉ s.extensions) ∧
      r.surveyorFor ext = r.surveyors.find?
        (·.extensions.contains (normalizedExtension (normalizedExtension ext)))) ∧
    (TypeScript.Dialect.ofExtension (SurveyOptions.forExtension ext).extension = .plain ↔
      normalizedExtension ext ∈ ["ts", "mts", "cts"]) := by
  have hunlisted : ¬ IsPlain ext → normalizedExtension ext ∉ r.extensions := by
    intro hplain hlisted
    obtain ⟨s, hs, he⟩ := mem_extensions.1 hlisted
    exact trim_normalizedExtension_ne hplain (h s hs _ he)
  refine ⟨⟨fun hagrees => ?_, fun hagrees => ?_⟩, fun hplain => ?_, ?_⟩
  · by_cases hplain : IsPlain ext
    · exact .inl hplain
    · exact .inr (hagrees.first.trans (find?_supports_eq_none_iff.2 (hunlisted hplain)))
  · by_cases hplain : IsPlain ext
    · exact agreesOn_of_isPlain hplain r
    · exact agreesOn_of_first ((hagrees.resolve_left hplain).trans
        (find?_supports_eq_none_iff.2 (hunlisted hplain)).symm)
  · refine ⟨find?_supports_eq_none_iff.2 (hunlisted hplain), hunlisted hplain, ?_, rfl⟩
    exact fun s hs he => hunlisted hplain (mem_extensions.2 ⟨s, hs, he⟩)
  · rw [TypeScript.Dialect.ofExtension, SurveyOptions.forExtension,
      bareExtension_normalizedExtension]
    split <;> simp_all

theorem builtin_declaresTrimmed : builtin.DeclaresTrimmed := by
  unfold DeclaresTrimmed
  decide +kernel

/-- An extension with a dot in front and a capital is agreed on, and read in the plain dialect. -/
theorem agrees_on_dot_and_capital :
    builtin.DeclaresTrimmed ∧ IsPlain ".Ts" ∧ builtin.AgreesOn ".Ts" ∧
      TypeScript.Dialect.ofExtension (SurveyOptions.forExtension ".Ts").extension = .plain := by
  obtain ⟨hagrees, -, hdialect⟩ := agrees_unless_blank_behind_dots builtin_declaresTrimmed ".Ts"
  have hhead : (stemOf ".Ts").head? = some 'T' := by decide +kernel
  have hplain : IsPlain ".Ts" := fun c hc => by
    obtain rfl := Option.some.inj (hhead.symm.trans hc)
    rfl
  exact ⟨builtin_declaresTrimmed, hplain, hagrees.2 (.inl hplain), hdialect.2 (by decide +kernel)⟩

/-- An extension with a blank behind the dot is taken by the registry, though no surveyor takes it and
it is not listed. The surveyor that is chosen is told what it has not declared, and reads the other
dialect. -/
theorem not_agrees_on_dot_and_blank :
    (∀ s ∈ builtin.surveyors, ∀ e ∈ s.extensions,
      trim e.toList = e.toList ∧ '.' ∉ e.toList ∧ lower e.toList = e.toList) ∧
    (builtin.surveyorFor ". ts").map (·.language) = some "typescript" ∧
    (builtin.surveyors.find? (·.supports ". ts")).isNone = true ∧
    builtin.supports ". ts" = true ∧ normalizedExtension ". ts" ∉ builtin.extensions ∧
    (SurveyOptions.forExtension ". ts").extension ∉ Surveyor.typescript.extensions ∧
    TypeScript.Dialect.ofExtension (SurveyOptions.forExtension ". ts").extension = .withElements := by
  decide +kernel

end Registry

end CodeSurvey
