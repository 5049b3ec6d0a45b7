import StateCursors.TypeScript.Statements

/-!
# Modules

A module is a sequence of statements. The rules are tied together by counting how deeply constructs
are nested: no text nests deeper than it has items for every category, so the count never runs out
before the text does.
-/

namespace StateCursors.TypeScript

open Reader Lexeme

namespace Grammar

/-- The rule of every category, over the grammar that reads its parts. -/
def rule (g : Grammar) : (category : Category) → SourceReader category.Result
  | .type position => g.typeTerm position
  | .expression position => g.wholeExpression position
  | .pattern => g.bindingPattern
  | .element => g.element
  | .classBody => g.classMembers
  | .block => g.statements
  | .statement => pageComments *> g.anyStatement

/-- Read constructs that are nested less than `depth` deep. -/
def readWithin (markup : Bool) :
    (depth : Nat) → (category : Category) → SourceReader category.Result
  | 0, _ => failure
  | depth + 1, category => rule ⟨markup, readWithin markup depth⟩ category

/-- The grammar for a text of a given length. -/
def forLength (markup : Bool) (length : Nat) : Grammar :=
  ⟨markup, readWithin markup (8 * (length + 1))⟩

end Grammar

/-- The line at the top of a file that names its interpreter. -/
def interpreterLine : SourceReader Unit := do
  symbol "#!"
  Functor.discard (items fun g => !(g = .char '\n' || g = .char '\x00'))

/-- The declarations of a module, statement by statement, if the text is one. -/
def declarations? (markup : Bool) (text : Source) : Option (List Declaration) :=
  let g := Grammar.forLength markup text.length
  let reader := perhaps interpreterLine *> many (g.read .statement) <* pageComments <* gap
  match reader text with
  | some (found, []) => some found
  | _ => none

end StateCursors.TypeScript
