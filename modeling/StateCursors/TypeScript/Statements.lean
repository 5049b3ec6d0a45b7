import StateCursors.TypeScript.Declarations

/-!
# Statements

The rules for statements. A statement that begins with a reserved word is read by the rule of that
word alone; every other one may also be an expression.
-/

namespace StateCursors.TypeScript

open Reader Lexeme

/-- Words that begin a statement of their own and no expression. -/
def statementWords : List String :=
  ["if", "for", "while", "do", "switch", "try", "with", "break", "continue", "debugger", "return",
    "throw", "var", "const", "enum", "interface", "abstract", "case", "default"]

namespace Grammar

variable (g : Grammar)

def statements : SourceReader Unit := do
  symbol "\x7b"
  let _ ← many (g.read .statement)
  symbol "\x7d"

def condition : SourceReader Unit := Functor.discard g.parenthesized

def substatement : SourceReader Unit := Functor.discard (g.read .statement)

def ifStatement : SourceReader Unit := do
  keyword "if"
  g.condition
  g.substatement
  perhaps (keyword "else" *> g.substatement)

/-- What a loop over the members of a value binds. -/
def loopTarget : SourceReader Unit :=
  (keywords ["var", "let", "const"] *> g.pattern *> perhaps (g.initialValue .operand)) <|> do
    let form ← g.unary .operand
    check (form ≠ .value)

def loopHead : SourceReader Unit :=
  oneOf [
    g.loopTarget *> keywords ["in", "of"] *> g.values .operand,
    (do
      g.variableDeclaration <|> perhaps (g.values .operand) *> symbol ";"
      perhaps (g.values .operand)
      symbol ";"
      perhaps (g.values .operand))]

def forStatement : SourceReader Unit := do
  keyword "for"
  perhaps (keyword "await")
  symbol "("
  g.loopHead
  symbol ")"
  g.substatement

def whileStatement : SourceReader Unit :=
  keyword "while" *> g.condition *> g.substatement

/-- A loop with its condition at the end. -/
def doStatement : SourceReader Unit := do
  keyword "do"
  g.substatement
  keyword "while"
  g.condition
  perhaps (symbol ";")

/-- A statement with access to the members of a value. -/
def withStatement : SourceReader Unit :=
  keyword "with" *> g.condition *> g.substatement

def switchStatement : SourceReader Unit := do
  keyword "switch"
  g.condition
  symbol "\x7b"
  let _ ← many do
    (keyword "case" *> g.values .operand) <|> keyword "default"
    symbol ":"
    many (g.read .statement)
  symbol "\x7d"

def tryStatement : SourceReader Unit := do
  keyword "try"
  g.block
  perhaps do
    keyword "catch"
    perhaps (symbol "(" *> g.pattern *> perhaps (g.typed .inner) *> symbol ")")
    g.block
  perhaps (keyword "finally" *> g.block)

def jumpStatement : SourceReader Unit := do
  keywords ["break", "continue"]
  perhaps (goesOn .declared *> word)
  semicolon false

def returnStatement : SourceReader Unit := do
  keyword "return"
  match ← maybe (goesOn .declared *> g.values .statement) with
  | some _ => semicolon true
  | none => semicolon false

def throwStatement : SourceReader Unit :=
  keyword "throw" *> g.values .statement *> semicolon true

def labeledStatement : SourceReader Unit := do
  let _ ← wordExcept statementWords
  symbol ":"
  g.substatement

def expressionStatement : SourceReader Unit := do
  refuse (keywords statementWords)
  g.values .statement
  semicolon true

def anyStatement : SourceReader Declaration :=
  oneOf [
    g.importStatement,
    g.exportStatement,
    g.declaration,
    g.ifStatement *> pure .other,
    g.forStatement *> pure .other,
    g.whileStatement *> pure .other,
    g.doStatement *> pure .other,
    g.withStatement *> pure .other,
    g.switchStatement *> pure .other,
    g.tryStatement *> pure .other,
    jumpStatement *> pure .other,
    g.returnStatement *> pure .other,
    g.throwStatement *> pure .other,
    keyword "debugger" *> semicolon false *> pure .other,
    g.block *> pure .other,
    symbol ";" *> pure .other,
    g.labeledStatement *> pure .other,
    g.expressionStatement *> pure .other]

end Grammar

end StateCursors.TypeScript
