-- Comments are told in the comments of facts alone: a survey that does not read them tells
-- what is left of one that does when these are taken out of its facts. So it is in Go and
-- Python, where a pass goes over lines, and in TypeScript, where a walk goes over a tree.
import CodeSurvey.Proofs.Go.Pass
import CodeSurvey.Proofs.Python.Comment
import CodeSurvey.Proofs.TypeScript.Piece
import CodeSurvey.Registry.Builtin

namespace CodeSurvey

/-! ## Go -/

namespace Go

theorem Stop.withoutDocs_tell (docs : Bool) (p : Stop) :
    (p.tell docs).withoutDocs = p.tell false := by
  unfold tell
  split <;> rfl

/-- Whether comments are read makes no difference to the stops, and to what they tell only in the
comments. -/
theorem withoutDocs_survey (docs : Bool) (source : String) :
    (survey docs source).withoutDocs = survey false source := by
  rw [survey_eq, survey_eq, FileFacts.withoutDocs_concat, List.map_map]
  exact congrArg FileFacts.concat (List.map_congr_left fun p _ => p.withoutDocs_tell docs)

end Go

/-! ## TypeScript -/

namespace TypeScript

/-- The same characters, of which no comments are read. -/
def Source.silent (s : Source) : Source := { s with docs := false }

theorem docComment?_silent (s : Source) (p : Place) : docComment? s.silent p = none := by
  simp [docComment?, Source.silent]

theorem withoutDoc_factAt (s : Source) (p : Place) (name : String) (kind : FactKind)
    (signature : String) :
    (factAt s p name kind signature).withoutDoc = factAt s.silent p name kind signature := by
  unfold factAt
  rw [docComment?_silent]
  rfl

theorem withoutDocs_factPiece (f : Fact) : (factPiece f).withoutDocs = factPiece f.withoutDoc := rfl

/-- A named node gives the same without comments when what it gives under any name does. -/
theorem withoutDocs_named? {s : Source} {t : Tree} {f g : String → FileFacts}
    (h : ∀ name, (f name).withoutDocs = g name) :
    (named? s t f).withoutDocs = named? s.silent t g := by
  unfold named?
  cases t.child? .name with
  | none => rfl
  | some n => exact h _

theorem withoutDocs_functionOf (s : Source) (p : Place) :
    (functionOf s p).withoutDocs = functionOf s.silent p := by
  refine withoutDocs_named? fun name => ?_
  rw [withoutDocs_factPiece]
  exact congrArg (fun f => factPiece (asFunction s p.node f)) (withoutDoc_factAt s p ..)

theorem withoutDocs_functionValueOf (s : Source) (p : Place) :
    (functionValueOf s p).withoutDocs = functionValueOf s.silent p := by
  unfold functionValueOf
  split
  · rename_i value name hvalue hname
    rw [withoutDocs_factPiece]
    exact congrArg (fun f => factPiece (asFunction s value f)) (withoutDoc_factAt s p ..)
  · rfl

theorem withoutDocs_typeOf (s : Source) (kind : FactKind) (p : Place) :
    (typeOf s kind p).withoutDocs = typeOf s.silent kind p := by
  refine withoutDocs_named? fun name => ?_
  rw [withoutDocs_factPiece]
  exact congrArg factPiece (withoutDoc_factAt s p ..)

theorem withoutDocs_typeAliasOf (s : Source) (p : Place) :
    (typeAliasOf s p).withoutDocs = typeAliasOf s.silent p := by
  refine withoutDocs_named? fun name => ?_
  rw [withoutDocs_factPiece]
  exact congrArg factPiece (withoutDoc_factAt s p ..)

theorem withoutDocs_methodOf (s : Source) (p : Place) :
    (methodOf s p).withoutDocs = methodOf s.silent p := by
  have howner : ownerName? s.silent p = ownerName? s p := rfl
  unfold methodOf
  rw [howner]
  cases ownerName? s p with
  | none => rfl
  | some owner =>
    refine withoutDocs_named? fun name => ?_
    rw [withoutDocs_factPiece]
    exact congrArg (fun f => factPiece { asFunction s p.node f with
      accessibility := some (accessibilityOf s p.node name) }) (withoutDoc_factAt s p ..)

/-- Imports, exports and features have no comment. -/
theorem withoutDocs_of_no_facts {f : FileFacts} (h : f.facts = []) : f.withoutDocs = f := by
  unfold FileFacts.withoutDocs
  rw [h, List.map_nil, ← h]

/-- What a node gives depends on the reading of comments in their texts alone. -/
theorem withoutDocs_pieceAt (s : Source) (p : Place) :
    (pieceAt s p).withoutDocs = pieceAt s.silent p := by
  unfold pieceAt
  split
  · exact withoutDocs_of_no_facts (facts_importOf s p.node)
  · exact withoutDocs_of_no_facts (facts_exportOf s p.node)
  · exact withoutDocs_of_no_facts (facts_callImportOf s p.node)
  · exact withoutDocs_functionOf s p
  · exact withoutDocs_functionOf s p
  · exact withoutDocs_functionValueOf s p
  · exact withoutDocs_typeOf s .class_ p
  · exact withoutDocs_typeOf s .class_ p
  · exact withoutDocs_methodOf s p
  · exact withoutDocs_typeOf s .interface p
  · exact withoutDocs_typeAliasOf s p
  all_goals rfl

theorem withoutDoc_exportListed (listed classes : List String) (f : Fact) :
    (exportListed listed classes f).withoutDoc = exportListed listed classes f.withoutDoc := by
  have hname : exportedName f.withoutDoc = exportedName f := rfl
  have hkind : f.withoutDoc.kind = f.kind := rfl
  unfold exportListed
  rw [hname, hkind]
  dsimp only
  split <;> rfl

/-- The lists of exports look at names and kinds, so that their marks on the facts are the same. -/
theorem withoutDocs_surveyTree (s : Source) (t : Tree) :
    (surveyTree s t).withoutDocs = surveyTree s.silent t := by
  let found := FileFacts.concat ((Place.walk t).map (pieceAt s))
  have hfound : found.withoutDocs = FileFacts.concat ((Place.walk t).map (pieceAt s.silent)) := by
    rw [FileFacts.withoutDocs_concat, List.map_map]
    exact congrArg FileFacts.concat (List.map_congr_left fun p _ => withoutDocs_pieceAt s p)
  have hlisted : (Place.walk t).flatMap (fun p => localExportsOf s.silent p.node) =
      (Place.walk t).flatMap (fun p => localExportsOf s p.node) := rfl
  have hclasses : (found.withoutDocs.facts.filter (fun f => f.kind == .class_)).map (·.name) =
      (found.facts.filter (fun f => f.kind == .class_)).map (·.name) := by
    simp [FileFacts.withoutDocs, List.filter_map, Function.comp_def, Fact.withoutDoc]
  unfold surveyTree surveyPlaces
  dsimp only
  rw [← hfound, hlisted, hclasses]
  simp [found, FileFacts.withoutDocs, Function.comp_def, withoutDoc_exportListed]

end TypeScript

/-! ## All surveyors -/

/-- Each surveyor, told not to read comments, gives of any file what it gives when it is told to,
without the comments of the facts; and so does the walk over any syntax tree of TypeScript. -/
theorem docs_show_in_docs_alone {surveyor : Surveyor} (h : surveyor ∈ Registry.builtin.surveyors)
    (ext source : String) (chars : Array Char) (t : TypeScript.Tree) :
    surveyor.survey ⟨ext, false⟩ source =
        (surveyor.survey ⟨ext, true⟩ source).map (·.withoutDocs) ∧
      TypeScript.surveyTree ⟨chars, false⟩ t =
        (TypeScript.surveyTree ⟨chars, true⟩ t).withoutDocs := by
  refine ⟨?_, (TypeScript.withoutDocs_surveyTree ⟨chars, true⟩ t).symm⟩
  simp only [Registry.builtin, List.mem_cons, List.not_mem_nil, or_false] at h
  rcases h with rfl | rfl | rfl
  · exact congrArg some (TypeScript.withoutDocs_surveyTree ⟨_, true⟩ _).symm
  · exact congrArg some (Python.withoutDocs_survey true source).symm
  · exact congrArg some (Go.withoutDocs_survey true source).symm

namespace Remarked

/-- An exported type below its comment, and a method below another. -/
def source : String :=
  "// Store keeps rows.\ntype Store struct \x7b\x7d\n\n// Get returns one.\n// It never fails.\n" ++
    "func (s *Store) Get(id string) Row \x7b\n\treturn s.rows[id]\n\x7d\n"

/-- A tree of one node that is told of by its feature. -/
def tree : TypeScript.Tree := .node .decorator none true ⟨⟨0, 0⟩, ⟨0, 0⟩⟩ []

end Remarked

/-- The comments above the type and the method are all that is missing when they are not read. -/
theorem docs_show_in_docs_alone_of_remarked :
    (Surveyor.go.survey ⟨"go", false⟩ Remarked.source =
        (Surveyor.go.survey ⟨"go", true⟩ Remarked.source).map (·.withoutDocs) ∧
      TypeScript.surveyTree ⟨#[], false⟩ Remarked.tree =
        (TypeScript.surveyTree ⟨#[], true⟩ Remarked.tree).withoutDocs) ∧
    (Surveyor.go.survey ⟨"go", true⟩ Remarked.source).map
        (fun f => f.facts.map fun g => (g.name, g.docComment)) =
      some [("Store", some "Store keeps rows."),
        ("Store.Get", some "Get returns one.\nIt never fails.")] := by
  have hmem : Surveyor.go ∈ Registry.builtin.surveyors := by
    simp [Registry.builtin]
  exact ⟨docs_show_in_docs_alone hmem "go" Remarked.source #[] Remarked.tree, by decide +kernel⟩

end CodeSurvey
