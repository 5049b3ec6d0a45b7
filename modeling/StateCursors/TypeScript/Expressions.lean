import StateCursors.TypeScript.Markup

/-!
# Expressions

The rules for expressions. Only whether a text is an expression matters here, so operators are read
from left to right without precedence; what has to be remembered of an expression is whether it can
be assigned to.
-/

namespace StateCursors.TypeScript

open Reader Lexeme

def binaryMarks : List String :=
  ["&&", "||", "??", ">>", ">>>", "<<", "&", "^", "|", "+", "-", "*", "/", "%", "**", "<", "<=",
    "==", "===", "!=", "!==", ">=", ">"]

def updatingMarks : List String :=
  ["+=", "-=", "*=", "/=", "%=", "**=", "<<=", ">>=", ">>>=", "&=", "|=", "^=", "&&=", "||=",
    "??="]

def prefixedMarks : List String :=
  ["!", "~", "-", "+", "++", "--"]

/-- Words that no name of a value may be, where an expression begins. -/
def expressionWords : List String :=
  ["function", "class", "typeof", "void", "delete", "await", "yield", "import"]

/-- Words that may follow a complete value. -/
def followingWords : List String :=
  ["in", "instanceof", "as", "satisfies", "of", "implements"]

def oneMark (allowed : List String) : SourceReader Unit := do
  let found ← mark
  check (allowed.contains found)

namespace Grammar

variable (g : Grammar)

/-- A default value behind a pattern. -/
def defaulted (reader : SourceReader Unit) : SourceReader Unit :=
  reader *> perhaps (g.initialValue .operand)

def patternProperty : SourceReader Unit :=
  oneOf [
    symbol "..." *> g.pattern,
    g.propertyName *> symbol ":" *> g.defaulted g.pattern,
    g.defaulted (Functor.discard word)]

def bindingPattern : SourceReader Unit :=
  oneOf [
    Functor.discard word,
    Functor.discard (sparse "\x7b" "\x7d" g.patternProperty),
    Functor.discard (sparse "[" "]" (perhaps (symbol "...") *> g.defaulted g.pattern))]

def method : SourceReader Unit := do
  modifiers g.propertyName memberModifiers
  perhaps g.methodMark
  g.propertyName
  perhaps (symbol "?")
  g.signature .inner
  g.block

/-- The form of a literal whose parts have the given forms. -/
def literalForm (parts : List ExpressionForm) : ExpressionForm :=
  if parts.contains .onlyPattern then .onlyPattern else .pattern

def objectPart : SourceReader ExpressionForm :=
  oneOf [
    symbol "..." *> g.expression .operand,
    g.method *> pure .value,
    g.propertyName *> symbol ":" *> g.expression .operand,
    (do
      let _ ← word
      match ← maybe (g.initialValue .operand) with
      | some _ => return .onlyPattern
      | none => return .value)]

def objectLiteral : SourceReader ExpressionForm :=
  literalForm <$> sparse "\x7b" "\x7d" g.objectPart

def arrayLiteral : SourceReader ExpressionForm :=
  literalForm <$> sparse "[" "]" (perhaps (symbol "...") *> g.expression .operand)

def parenthesized : SourceReader ExpressionForm := do
  symbol "("
  g.value .operand
  g.typed .inner <|> Functor.discard (many (symbol "," *> g.value .operand))
  symbol ")"
  return .target

def function : SourceReader Unit := do
  perhaps (keyword "async")
  keyword "function"
  perhaps (symbol "*")
  perhaps word
  g.signature .inner
  g.block

def classHeritage : SourceReader Unit := do
  perhaps (keyword "extends" *> separated (symbol ",")
    (g.value .operand *> perhaps g.typeArguments))
  perhaps (keyword "implements" *> separated (symbol ",") (g.type .inner))

def classExpression : SourceReader Unit := do
  let _ ← many g.decorator
  keyword "class"
  perhaps (wordExcept ["extends", "implements"])
  perhaps g.typeParameters
  g.classHeritage
  g.read .classBody

def arrowParameters (position : Position) : SourceReader Unit :=
  oneOf [
    word *> ahead (markOf "=>") >>= check,
    (do
      perhaps g.typeParameters
      g.parameters
      if position.colonTypes then perhaps (symbol ":" *> g.returned .inner))]

def arrowFunction (position : Position) : SourceReader Unit := do
  (keyword "async" *> g.arrowParameters position) <|> g.arrowParameters position
  markOf "=>"
  g.block <|> g.value position

def template : SourceReader Unit := templateWith (g.values .operand)

def atom (position : Position) : SourceReader ExpressionForm :=
  oneOf [
    g.arrowFunction position *> pure .value,
    g.function *> pure .value,
    g.classExpression *> pure .value,
    (do let _ ← wordExcept expressionWords; return .target),
    keyword "import" *> oneOf [g.arguments, symbol "." *> Functor.discard word] *> pure .value,
    string *> pure .value,
    number *> pure .value,
    g.template *> pure .value,
    g.objectLiteral,
    g.arrayLiteral,
    g.parenthesized,
    (do
      privateName
      let _ ← ahead (keyword "in") >>= check
      return .value),
    regex *> pure .value,
    g.read .element *> pure .value]

/-- What may follow a value directly. -/
def suffix (position : Position) : SourceReader ExpressionForm := do
  goesOn position
  let memberName := privateName <|> Functor.discard word
  oneOf [
    markOf "." *> memberName *> pure .target,
    markOf "?." *> oneOf [
      memberName *> pure .target,
      symbol "[" *> g.values .operand *> symbol "]" *> pure .target,
      g.arguments *> pure .value,
      g.typeArguments *> g.arguments *> pure .value],
    symbol "[" *> g.values .operand *> symbol "]" *> pure .target,
    g.arguments *> pure .value,
    g.template *> pure .value,
    markOf "!" *> pure .target,
    oneMark ["++", "--"] *> pure .value,
    g.typeArguments *> oneOf [
      g.arguments *> pure .value,
      g.template *> pure .value,
      refuse (oneOf [Functor.discard (wordExcept followingWords), number, string]) *>
        pure .value]]

/-- An expression with everything that follows it directly, at most `limit` suffixes. -/
def suffixes (position : Position) :
    (limit : Nat) → ExpressionForm → SourceReader ExpressionForm
  | 0, form => pure form
  | limit + 1, form => do
      match ← maybe (g.suffix position) with
      | some next => suffixes position limit next
      | none => pure form

def prefixed : SourceReader Unit :=
  oneOf [
    oneMark prefixedMarks,
    keywords ["typeof", "void", "delete", "await"],
    (do
      check !g.markup
      Functor.discard g.typeArguments)]

def creation (position : Position) : SourceReader ExpressionForm := do
  let _ ← separated (pure ()) (keyword "new")
  g.atom position <|> (symbol "." *> word *> pure .value)

def yielded (position : Position) : SourceReader ExpressionForm := do
  keyword "yield"
  perhaps (goesOn position *> perhaps (symbol "*") *> g.value position)
  return .value

/-- A value with the operators before it and the suffixes behind it. -/
def unary (position : Position) : SourceReader ExpressionForm :=
  g.yielded position <|> (do
    let _ ← many g.prefixed
    let form ← g.creation position <|> g.atom position
    fun text => g.suffixes position text.length form text)

/-- A choice between two values behind a condition; `colonTypes` tells how colons are read. -/
def conditional (position : Position) (colonTypes : Bool) : SourceReader Unit := do
  markOf "?"
  g.value ⟨false, true, colonTypes⟩
  symbol ":"
  g.value position

/-- What may follow a value of form `form` behind an operator. -/
def continuation (position : Position) (form : ExpressionForm) : SourceReader ExpressionForm := do
  goesOn position
  oneOf [
    (do
      check (form ≠ .value)
      g.initialValue position
      return .value),
    (do
      check (form = .target)
      oneMark updatingMarks
      g.value position
      return .value),
    oneMark binaryMarks *> g.unary position,
    keywords ["in", "instanceof"] *> g.unary position,
    keywords ["as", "satisfies"] *> g.type { position with operators := true } *> pure .value,
    (g.conditional position true <|> g.conditional position false) *> pure .value]

/-- A value with the operators behind it, at most `limit` of them. -/
def continuations (position : Position) :
    (limit : Nat) → ExpressionForm → SourceReader ExpressionForm
  | 0, form => pure form
  | limit + 1, form => do
      match ← maybe (g.continuation position form) with
      | some next => continuations position limit next
      | none => pure form

def wholeExpression (position : Position) : SourceReader ExpressionForm := do
  let form ← g.unary position
  fun text => g.continuations position text.length form text

end Grammar

end StateCursors.TypeScript
