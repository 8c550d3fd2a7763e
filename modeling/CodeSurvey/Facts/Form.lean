-- Facts as JSON values, and facts read back from them.
import CodeSurvey.Facts
import CodeSurvey.Json.Reader

namespace CodeSurvey

open Json

/-! ## Parameters -/

/-- A parameter as an object. What is not known is left out. -/
def Parameter.toJson (p : Parameter) : Json :=
  .object ([("name", .text p.name)] ++
    (p.writtenType.map (fun t => ("type_annotation", .text t))).toList ++
    [("optional", .bool p.isOptional)] ++
    (p.defaultValue.map (fun t => ("default_value", .text t))).toList)

def Parameter.fields : Fields Parameter :=
  Parameter.mk <$> required "name" readText
    <*> defaulted "type_annotation" (readOption readText) none
    <*> defaulted "optional" readBool false
    <*> defaulted "default_value" (readOption readText) none

def Parameter.ofJson : Reads Parameter := Parameter.fields.read "struct Parameter"

/-! ## Facts -/

def Fact.entries (f : Fact) : List (String × Json) :=
  [("name", .text f.name),
    ("kind", .text f.kind.name),
    ("signature", .text f.signature),
    ("doc_comment", orNull .text f.docComment),
    ("start_line", nat f.startLine.toNat),
    ("end_line", nat f.endLine.toNat),
    ("parameters", orNull (fun ps => .array (ps.map Parameter.toJson)) f.parameters),
    ("return_type", orNull .text f.returnType),
    ("exported", .bool f.exported),
    ("is_async", .bool f.isAsync),
    ("accessibility", orNull (fun a => .text a.name) f.accessibility)]

def Fact.toJson (f : Fact) : Json := .object f.entries

def Fact.fields : Fields Fact :=
  Fact.mk <$> required "name" readText
    <*> required "kind" (readName FactKind.named)
    <*> required "signature" readText
    <*> optional "doc_comment" readText
    <*> required "start_line" readUInt32
    <*> required "end_line" readUInt32
    <*> optional "parameters" (readList Parameter.ofJson)
    <*> optional "return_type" readText
    <*> required "exported" readBool
    <*> required "is_async" readBool
    <*> optional "accessibility" (readName Accessibility.named)

def Fact.ofJson : Reads Fact := Fact.fields.read "struct StructuralFact"

/-! ## Imports and exports -/

def Import.toJson (i : Import) : Json :=
  .object [("source", .text i.source),
    ("default_import", orNull .text i.defaultImport),
    ("named", .array (i.named.map .text)),
    ("namespace", orNull .text i.namespaceName),
    ("type_only", .bool i.typeOnly),
    ("line", nat i.line.toNat)]

def Import.fields : Fields Import :=
  Import.mk <$> required "source" readText
    <*> optional "default_import" readText
    <*> required "named" (readList readText)
    <*> optional "namespace" readText
    <*> required "type_only" readBool
    <*> required "line" readUInt32

def Import.ofJson : Reads Import := Import.fields.read "struct ImportFact"

def Export.toJson (e : Export) : Json :=
  .object [("name", .text e.name),
    ("kind", .text e.kind.name),
    ("source", orNull .text e.source),
    ("line", nat e.line.toNat)]

def Export.fields : Fields Export :=
  Export.mk <$> required "name" readText
    <*> required "kind" (readName ExportKind.byName)
    <*> optional "source" readText
    <*> required "line" readUInt32

def Export.ofJson : Reads Export := Export.fields.read "struct ExportFact"

/-! ## Features and whole files -/

def Features.toJson (f : Features) : Json :=
  .object [("async_functions", .bool f.asyncFunctions),
    ("classes", .bool f.classes),
    ("decorators", .bool f.decorators),
    ("generics", .bool f.generics),
    ("jsx", .bool f.jsx),
    ("optional_chaining", .bool f.optionalChaining),
    ("type_annotations", .bool f.typeAnnotations)]

def Features.fields : Fields Features :=
  Features.mk <$> required "async_functions" readBool
    <*> required "classes" readBool
    <*> required "decorators" readBool
    <*> required "generics" readBool
    <*> required "jsx" readBool
    <*> required "optional_chaining" readBool
    <*> required "type_annotations" readBool

def Features.ofJson : Reads Features := Features.fields.read "struct LanguageFeatures"

/-- All that a file tells as an object. -/
def FileFacts.toJson (f : FileFacts) : Json :=
  .object [("functions", .array (f.facts.map Fact.toJson)),
    ("imports", .array (f.imports.map Import.toJson)),
    ("exports", .array (f.exports.map Export.toJson)),
    ("language_features", f.features.toJson)]

/-- The fields of what a file tells. -/
def FileFacts.fields : Fields FileFacts :=
  FileFacts.mk <$> required "functions" (readList Fact.ofJson)
    <*> required "imports" (readList Import.ofJson)
    <*> required "exports" (readList Export.ofJson)
    <*> required "language_features" Features.ofJson

/-- All that a file tells from a value. -/
def FileFacts.ofJson : Reads FileFacts := FileFacts.fields.read "struct ExtractedFacts"

end CodeSurvey
