import StateCursors.TypeScript.Lexeme

/-!
# The shape of the grammar

Types, expressions, patterns, classes, blocks and statements contain each other. Each of them is a
category; a grammar says how every category is read, and the rules of one category are written over
the grammar that reads its parts. Only what a schema needs is kept of a construct that was read: the
declarations of a module, the properties of its interfaces and the form of their types.
-/

namespace StateCursors.TypeScript

open Reader

/-- What the form of a type says about the fields declared with it. The word `const` stands where a
type may stand, but counts as no part of what it stands in: an array of it may have no element. -/
inductive TypeForm
  | array (element : Option Source)
  | generic (name : Source) (arguments : List Source)
  | constant
  | other

/-- A type and its text. -/
structure TypeTerm where
  form : TypeForm
  text : Source

/-- What stands first after the colon of a property: nothing, a comment or the type. -/
inductive PropertyType
  | unspecified
  | comment (text : Source)
  | term (term : TypeTerm)

/-- A type as a part of what contains it. -/
def TypeTerm.parts (term : TypeTerm) : List Source :=
  match term.form with
  | .constant => []
  | _ => [term.text]

/-- A property of an interface. -/
structure Property where
  name : Source
  type : PropertyType

/-- What a statement declares, as far as a schema is concerned. -/
inductive Declaration
  | namespaceImport (name path : Source)
  | interface (name : Source) (heritages : List Source) (properties : List Property)
  | enumeration (name : Source)
  | other

/-- What may be done with an expression: assign to it, take it for a pattern if an assignment
follows, take it only for a pattern, or use its value. -/
inductive ExpressionForm
  | target
  | pattern
  | onlyPattern
  | value
  deriving DecidableEq

/-- Where a type or an expression stands: whether the statement may end behind it, whether operators
may follow it, and whether a colon behind a parameter list starts a type. -/
structure Position where
  endable : Bool
  operators : Bool
  colonTypes : Bool

namespace Position

/-- Inside brackets, where no operator can follow. -/
def inner : Position := ⟨false, false, true⟩

/-- An expression inside brackets. -/
def operand : Position := ⟨false, true, true⟩

/-- At the end of a member or a declaration. -/
def declared : Position := ⟨true, false, true⟩

/-- At the end of a statement that is an expression. -/
def statement : Position := ⟨true, true, true⟩

end Position

/-- The constructs that contain each other. -/
inductive Category
  | type (position : Position)
  | expression (position : Position)
  | pattern
  | element
  | classBody
  | block
  | statement

/-- What is kept of a construct. -/
def Category.Result : Category → Type
  | type _ => TypeTerm
  | expression _ => ExpressionForm
  | statement => Declaration
  | pattern | element | classBody | block => Unit

/-- How every category is read; `markup` tells whether expressions hold markup elements. -/
structure Grammar where
  markup : Bool
  read : (category : Category) → SourceReader category.Result

namespace Grammar

variable (g : Grammar)

def type (position : Position) : SourceReader TypeTerm := g.read (.type position)

def expression (position : Position) : SourceReader ExpressionForm := g.read (.expression position)

def value (position : Position) : SourceReader Unit := do
  let form ← g.expression position
  check (form ≠ .onlyPattern)

def values (position : Position) : SourceReader Unit :=
  Functor.discard (separated (Lexeme.symbol ",") (g.value position))

def pattern : SourceReader Unit := g.read .pattern

def block : SourceReader Unit := g.read .block

end Grammar

/-- Fail if the statement ends here. -/
def goesOn (position : Position) : SourceReader Unit := fun text =>
  if position.endable && Trivia.endsStatement position.operators text then none
  else some ((), text)

def semicolon (operators : Bool) : SourceReader Unit := fun text =>
  if Trivia.endsStatement operators text then some ((), text) else Lexeme.symbol ";" text

/-- Items between brackets with commas among them; items may be missing. -/
def sparse {α : Type} (opening closing : String) (item : SourceReader α) :
    SourceReader (List α) := do
  Lexeme.symbol opening
  let first ← maybe item
  let more ← many (Lexeme.symbol "," *> maybe item)
  Lexeme.symbol closing
  return (first :: more).filterMap id

/-- Take keywords in the order of their groups, at most one of each; a keyword counts only where a
name follows in the same statement. -/
def modifiers (name : SourceReader Unit) : (groups : List (List String)) → SourceReader Unit
  | [] => pure ()
  | group :: more => do
      perhaps (Lexeme.keywords group *> goesOn .declared *> ahead name >>= check)
      modifiers name more

end StateCursors.TypeScript
