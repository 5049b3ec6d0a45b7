import StateCursors.Log
import StateCursors.Schema
import StateCursors.Text.Literal
import StateCursors.TypeScript.Module
import StateCursors.Unicode.Blank

/-!
# Schemas from source files

The schema of a source file is read off its declarations: every interface is a state record, every
enum counts by its name, and every namespace import counts with its alias and path. A source that is
no module has no schema, and neither has one in which a text that is needed is missing or is not
well formed.
-/

namespace StateCursors

/-- A source file with its content. -/
structure SourceFile where
  path : FilePath
  content : Octets
  deriving DecidableEq

/-- What an extractor answers for a source file, and the notes it makes. -/
structure Extraction where
  outcome : Except Failure ModuleSchema
  notes : List LogRecord

/-- Anything that reads schemas off source files. -/
abbrev Extractor := SourceFile → Extraction

namespace TypeScript

/-- The generic types whose only argument is the type of an array's elements. -/
def arrayGenerics : List String := ["Array", "ReadonlyArray"]

/-- The type of a field and whether it is an array, as a type term declares it. -/
def TypeTerm.fieldType? (term : TypeTerm) : Option (String × Bool) :=
  match term.form with
  | .array element? => (element?.bind Glyph.text?).map (·, true)
  | .generic name arguments => do
      let name ← Glyph.text? name
      match arguments with
      | [argument] =>
          if arrayGenerics.contains name then (Glyph.text? argument).map (·, true)
          else (Glyph.text? term.text).map (·, false)
      | _ => (Glyph.text? term.text).map (·, false)
  | .constant | .other => (Glyph.text? term.text).map (·, false)

def Property.field? (property : Property) : Option Field := do
  let name ← Glyph.text? property.name
  let (type, isArray) ← match property.type with
    | .unspecified => some ("any", false)
    | .comment text => (Glyph.text? text).map (·, false)
    | .term term => term.fieldType?
  return ⟨Text.unquote name, type, isArray⟩

/-- A heritage as it is written, without type arguments. -/
def bareHeritage (text : String) : String :=
  String.ofList (Unicode.trim (text.toList.takeWhile (· ≠ '<')))

/-- The heritages of an interface, each once. -/
def bareHeritages (texts : List String) : List String :=
  (texts.map bareHeritage).foldl
    (fun kept name => if name = "" ∨ name ∈ kept then kept else kept ++ [name]) []

/-- Add what a declaration contributes to a schema. -/
def Declaration.addTo? (schema : ModuleSchema) : Declaration → Option ModuleSchema
  | namespaceImport name path => do
      let name ← Glyph.text? name
      let path ← Glyph.text? path
      return { schema with imports := schema.imports ++ [⟨name, Text.unquote path⟩] }
  | interface name heritages properties => do
      let heritages ← heritages.mapM Glyph.text?
      let fields ← properties.mapM Property.field?
      let name ← Glyph.text? name
      return { schema with states := schema.states ++ [⟨name, fields, bareHeritages heritages⟩] }
  | enumeration name => do
      let name ← Glyph.text? name
      return { schema with enums := schema.enums ++ [name] }
  | other => some schema

/-- Whether a file is written in the dialect with markup elements. -/
def hasMarkup (path : FilePath) : Bool :=
  path.suffix = ".tsx"

def schemaOf (source : SourceFile) : Except Failure ModuleSchema :=
  match declarations? (hasMarkup source.path) (Utf8.glyphs source.content) with
  | none => .error (.diagnosed (.malformedSource source.path))
  | some declarations =>
      let empty : ModuleSchema := ⟨source.path.stem, source.path, [], [], []⟩
      match declarations.foldlM Declaration.addTo? empty with
      | some schema => .ok schema
      | none => .error .undecodable

/-- The note about a schema that was read. -/
def extractionNote (schema : ModuleSchema) : LogRecord where
  level := .debug
  channel := .extraction
  text := "Extracted " ++ toString schema.states.length ++ " states, " ++
    toString schema.enums.length ++ " enums, " ++ toString schema.imports.length ++
    " imports from " ++ schema.path.render

/-- The extractor of TypeScript sources. -/
def extractor : Extractor := fun source =>
  match schemaOf source with
  | .ok schema => ⟨.ok schema, [extractionNote schema]⟩
  | .error failure => ⟨.error failure, []⟩

end TypeScript

end StateCursors
