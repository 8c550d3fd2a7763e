-- What the parts of a file tell together: their features are those of any of them, and a part
-- that tells of imports alone adds these to what the others tell. The text of a type as it is
-- read: what neither begins nor ends with a sign of its declaration stays, with even spaces.
import CodeSurvey.Facts
import CodeSurvey.Proofs.Text.Blank

namespace CodeSurvey

open Text

/-! ## Features -/

namespace Features

theorem or_assoc (a b c : Features) : (a.or b).or c = a.or (b.or c) := by
  simp only [Features.or, Bool.or_assoc]

theorem none_or (a : Features) : Features.none.or a = a := rfl

theorem or_none (a : Features) : a.or Features.none = a := by
  simp only [Features.or, Features.none, Bool.or_false]

end Features

theorem foldl_or (start : Features) (parts : List FileFacts) :
    parts.foldl (fun f part => f.or part.features) start =
      start.or (parts.foldl (fun f part => f.or part.features) Features.none) := by
  induction parts generalizing start with
  | nil => exact (Features.or_none start).symm
  | cons part parts ih =>
    rw [List.foldl_cons, List.foldl_cons, ih, ih (Features.none.or _), Features.none_or,
      Features.or_assoc]

/-! ## Parts -/

namespace FileFacts

theorem concat_append (a b : List FileFacts) : concat (a ++ b) = concat a ++ concat b := by
  change concat (a ++ b) = (concat a).append (concat b)
  simp only [concat, append, List.flatMap_append, List.foldl_append]
  rw [foldl_or]

theorem concat_cons_imports (imports : List Import) (parts : List FileFacts) :
    concat ({ nothing with imports := imports } :: parts) =
      { concat parts with imports := imports ++ (concat parts).imports } := by
  simp only [concat, List.flatMap_cons, List.foldl_cons]
  rfl

theorem generics_concat (parts : List FileFacts) :
    (concat parts).features.generics = parts.any (·.features.generics) := by
  induction parts with
  | nil => rfl
  | cons part parts ih =>
    unfold concat at ih ⊢
    dsimp only at ih ⊢
    rw [List.foldl_cons, foldl_or, List.any_cons, ← ih]
    rfl

end FileFacts

/-! ## Texts of types -/

/-- Of a text with no blank at its ends, no arrow or colon in front and no sign behind that ends a
declaration, nothing is cut off; the blanks in front of it are. -/
theorem typeText_append {s front : List Char} (hne : s ≠ []) (htrim : trim s = s)
    (harrow : dropFront? ['-', '>'] s = none) (hcolon : s.head? ≠ some ':')
    (hend : ∀ c ∈ s.getLast?, c ≠ ';' ∧ c ≠ ':' ∧ c ≠ '\x7b') (hfront : allBlank front = true) :
    typeText (front ++ s) = some (String.ofList (singleSpaced s)) := by
  have hcut : dropEndWhile (fun c => c = ';' || c = ':' || c = '\x7b') s = s :=
    dropEndWhile_eq_self fun c hc => by simpa [and_assoc] using hend c hc
  simp only [typeText, trim_blank_append hfront, htrim, harrow, dropFront?_of_head?_ne hcolon,
    Option.getD_none, hcut]
  rw [if_neg (by simpa using hne)]

theorem mem_of_dropFront? {head s rest : List Char} (h : dropFront? head s = some rest) :
    ∀ c ∈ rest, c ∈ s := by
  intro c hc
  rw [dropFront?_eq_some_iff.1 h]
  exact List.mem_append_right _ hc

/-- What is read of a type has no characters but those of the text. -/
theorem mem_of_typeText {raw : List Char} {type : String} (h : typeText raw = some type) {c : Char}
    (hblank : isBlank c = false) (hc : c ∈ type.toList) : c ∈ raw := by
  have hread : ∀ body : List Char, (∀ d ∈ body, d ∈ trim raw) →
      (let name := trim (dropEndWhile (fun c => c = ';' || c = ':' || c = '\x7b') (trim body))
        if name.isEmpty then none else some (String.ofList (singleSpaced name))) = some type →
      c ∈ raw := by
    intro body hbody h
    dsimp only at h
    split_ifs at h
    obtain rfl := Option.some.inj h
    rw [String.toList_ofList, mem_singleSpaced hblank] at hc
    have hkept := List.mem_reverse.1 (mem_dropAroundWhile hc)
    have hcut := List.mem_reverse.1 ((List.dropWhile_sublist _).subset hkept)
    exact mem_dropAroundWhile (hbody c (mem_dropAroundWhile hcut))
  unfold typeText at h
  dsimp only at h
  cases harrow : dropFront? ['-', '>'] (trim raw) with
  | some rest =>
    rw [harrow] at h
    exact hread rest (mem_of_dropFront? harrow) h
  | none =>
    rw [harrow] at h
    cases hcolon : dropFront? [':'] (trim raw) with
    | some rest =>
      rw [hcolon] at h
      exact hread rest (mem_of_dropFront? hcolon) h
    | none =>
      rw [hcolon] at h
      exact hread (trim raw) (fun d hd => hd) h

end CodeSurvey
