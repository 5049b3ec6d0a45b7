import StateCursors.TypeScript.Expressions

/-!
# Class bodies

The rules for the members of a class.
-/

namespace StateCursors.TypeScript

open Reader Lexeme

def classModifiers : List String :=
  ["declare", "public", "private", "protected", "static", "override", "readonly", "abstract",
    "accessor"]

/-- What separates the members of a class. -/
def memberEnd (operators : Bool) : SourceReader Unit :=
  symbol "," <|> semicolon operators

namespace Grammar

variable (g : Grammar)

def classField : SourceReader Unit := do
  g.propertyName
  perhaps (goesOn .declared *> (markOf "?" <|> markOf "!"))
  perhaps (goesOn .declared *> g.typed .declared)
  match ← maybe (goesOn .declared *> g.initialValue .statement) with
  | some _ => memberEnd true
  | none => memberEnd false

/-- A method of a class, with or without its body. -/
def classMethod : SourceReader Unit := do
  perhaps g.methodMark
  g.propertyName
  perhaps (goesOn .declared *> symbol "?")
  goesOn .declared
  g.signature .declared
  (g.block *> perhaps (symbol ";")) <|> memberEnd false

def classMember : SourceReader Unit :=
  oneOf [
    symbol ";",
    keyword "static" *> g.block,
    (do
      let _ ← many g.decorator
      let name := oneOf [g.propertyName, symbol "*", symbol "["]
      let _ ← many (keywords classModifiers *> goesOn .declared *> ahead name >>= check)
      oneOf [g.indexSignature .declared *> memberEnd false, g.classMethod, g.classField])]

/-- The members between the braces of a class. -/
def classMembers : SourceReader Unit := do
  symbol "\x7b"
  let _ ← many g.classMember
  symbol "\x7d"

end Grammar

end StateCursors.TypeScript
