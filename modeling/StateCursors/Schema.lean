import StateCursors.Diagnostic
import StateCursors.Unicode.Word

/-!
# Schemas of state modules

The schema of a module lists its state records with their fields and heritages, the names of its
enums and its namespace imports. The heritages of a record decide its capability, by a fixed order
of precedence among the library's base states.
-/

namespace StateCursors

/-- A property of a state record. -/
structure Field where
  name : String
  type : String
  isArray : Bool
  deriving DecidableEq

/-- A namespace import: everything of module `path` under the name `name`. -/
structure NamespaceImport where
  name : String
  path : String
  deriving DecidableEq

/-- A state declared as an interface. -/
structure StateRecord where
  typeName : String
  fields : List Field
  heritages : List String
  deriving DecidableEq

/-- What a state record declares itself to be through its heritages. -/
inductive Capability
  | routeComponent
  | component
  | state
  | plain
  deriving DecidableEq

/-- The schema of one source module. -/
structure ModuleSchema where
  fileName : String
  path : FilePath
  states : List StateRecord
  enums : List String
  imports : List NamespaceImport
  deriving DecidableEq

def isTypeName : List Char → Bool
  | [] => false
  | c :: rest =>
      (c.isAlpha || c = '_' || c = '$') && rest.all fun d => Unicode.isWord d || d = '$'

/-- The text without one line break at its end. -/
def dropFinalNewline (text : List Char) : List Char :=
  if text.getLast? = some '\n' then text.dropLast else text

/-- Whether a type is qualified with an alias, as in `ns.IState`. -/
def isQualifiedType (type : String) : Bool :=
  match Text.cutFirst? '.' type with
  | some (qualifier, name) =>
      isTypeName qualifier.toList && isTypeName (dropFinalNewline name.toList)
  | none => false

namespace Field

/-- The type of a field as written in generated code. -/
def declaredType (field : Field) : String :=
  if field.isArray then field.type ++ "[]" else field.type

/-- Whether the type of a field belongs to another module. -/
def isExternal (field : Field) : Bool :=
  isQualifiedType field.type

end Field

/-- A heritage without its qualifier. -/
def heritageBase (heritage : String) : String :=
  match Text.cutLast? '.' heritage with
  | some (_, base) => base
  | none => heritage

/-- The qualifier of a heritage that has one. -/
def heritageQualifier? (heritage : String) : Option String :=
  (Text.cutLast? '.' heritage).map (·.1)

namespace Capability

/-- The base states of the library and what they grant, the stronger first. -/
def bases : List (String × Capability) :=
  [("IRouteComponentState", routeComponent), ("IComponentState", component), ("IState", state)]

def name : Capability → String
  | routeComponent => "route_component"
  | component => "component"
  | state => "state"
  | plain => "plain"

/-- The capability that a heritage's base grants, if any. -/
def granted? (heritage : String) : Option Capability :=
  bases.lookup (heritageBase heritage)

end Capability

namespace StateRecord

/-- The strongest capability among the heritages. -/
def capability (record : StateRecord) : Capability :=
  let bases := record.heritages.map heritageBase
  match Capability.bases.find? fun entry => bases.contains entry.1 with
  | some (_, capability) => capability
  | none => .plain

/-- The qualifier of the first qualified heritage that grants a capability. -/
def capabilityQualifier? (record : StateRecord) : Option String :=
  record.heritages.findSome? fun heritage =>
    if (Capability.granted? heritage).isSome then heritageQualifier? heritage else none

end StateRecord

namespace ModuleSchema

/-- All states of a module with a given name. -/
def statesNamed (schema : ModuleSchema) (typeName : String) : List StateRecord :=
  schema.states.filter (·.typeName = typeName)

/-- The state of a name, which no second state may share. -/
def resolveState (schema : ModuleSchema) (typeName : String) :
    Except Diagnostic (Option StateRecord) :=
  match schema.statesNamed typeName with
  | [] => .ok none
  | [record] => .ok (some record)
  | _ => .error (.duplicateState schema.path typeName)

/-- Whether a module declares an enum of a name. -/
def isEnum (schema : ModuleSchema) (typeName : String) : Bool :=
  schema.enums.contains typeName

def findImport? (schema : ModuleSchema) (name : String) : Option NamespaceImport :=
  schema.imports.find? (·.name = name)

end ModuleSchema

end StateCursors
