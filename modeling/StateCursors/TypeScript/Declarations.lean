import StateCursors.TypeScript.Classes

/-!
# Declarations

The rules for declarations, imports and exports. Interfaces, enums and namespace imports are the
declarations that a schema is made of; all others are read and forgotten.
-/

namespace StateCursors.TypeScript

open Reader Lexeme

def qualifiedName : SourceReader Unit := do
  let _ ← word
  Functor.discard (many (symbol "." *> word))

def fromClause : SourceReader Source := do
  keyword "from"
  let (_, path) ← withText string
  return path

/-- The name under which all of a module is imported. -/
def namespaceClause : SourceReader Source := do
  symbol "*"
  keyword "as"
  let (name, _) ← withText word
  return name

/-- One name in the braces of an import or export, with the name it gets. -/
def clauseName : SourceReader Unit := do
  let name := string <|> Functor.discard word
  let renamed := name *> perhaps (keyword "as" *> name)
  (keywords ["type", "typeof"] *> renamed *> ahead (symbol "," <|> symbol "\x7d") >>= check) <|>
    renamed

/-- Names in braces, for an import or an export. -/
def clauseNames : SourceReader Unit := do
  symbol "\x7b"
  perhaps (separated (symbol ",") clauseName)
  perhaps (symbol ",")
  symbol "\x7d"

/-- What is imported from a module; the result is the alias of all of it, if there is one. -/
def importClause : SourceReader (Option Source) :=
  oneOf [
    some <$> namespaceClause,
    clauseNames *> pure none,
    (do
      let _ ← word
      let more ← maybe (symbol "," *> (some <$> namespaceClause <|> clauseNames *> pure none))
      return more.join)]

namespace Grammar

variable (g : Grammar)

def importAttributes : SourceReader Unit :=
  perhaps (goesOn .declared *> keywords ["with", "assert"] *> g.objectLiteral)

/-- The import of a value of another namespace under a shorter name. -/
def importAlias : SourceReader Unit := do
  keyword "import"
  let _ ← word
  markOf "="
  qualifiedName
  semicolon false

def importStatement : SourceReader Declaration :=
  oneOf [
    (do
      keyword "import"
      let clause := do
        let name? ← importClause
        let path ← fromClause
        return (name?, path)
      let (name?, path) ← (keywords ["type", "typeof"] *> clause) <|> clause
      g.importAttributes
      semicolon false
      return match name? with
        | some name => .namespaceImport name path
        | none => .other),
    (do
      keyword "import"
      perhaps (keywords ["type", "typeof"] *> ahead word >>= check)
      let _ ← word
      markOf "="
      keyword "require"
      symbol "("
      string
      symbol ")"
      g.importAttributes
      semicolon false
      return .other),
    (do
      keyword "import"
      perhaps (keywords ["type", "typeof"])
      string
      g.importAttributes
      semicolon false
      return .other),
    importAlias *> pure .other]

def heritage : SourceReader Source := do
  let (_, text) ← withText (qualifiedName *> perhaps g.typeArguments)
  return text

/-- The heritages of an interface; the comments among them count as heritages. -/
def heritages : SourceReader (List Source) := do
  keyword "extends"
  let before ← gap
  let first ← g.heritage
  let more ← many do
    let after ← gap
    symbol ","
    let before ← gap
    let next ← g.heritage
    return after ++ before ++ [next]
  return before ++ [first] ++ more.flatten

def interfaceDeclaration : SourceReader Declaration := do
  keyword "interface"
  let (name, _) ← withText word
  perhaps g.typeParameters
  let heritages ← maybe g.heritages
  let properties ← g.objectBody
  return .interface name (heritages.getD []) properties

def enumDeclaration : SourceReader Declaration := do
  perhaps (keyword "const")
  keyword "enum"
  let (name, _) ← withText word
  symbol "\x7b"
  perhaps do
    let _ ← separated (symbol ",") (g.propertyName *> perhaps (g.initialValue .operand))
    perhaps (symbol ",")
  symbol "\x7d"
  return .enumeration name

def functionDeclaration : SourceReader Unit := do
  perhaps (keyword "async" *> goesOn .statement)
  keyword "function"
  perhaps (symbol "*")
  let _ ← word
  g.signature .declared
  g.block <|> semicolon false

def classDeclaration : SourceReader Unit := do
  let _ ← many g.decorator
  perhaps (keyword "abstract")
  keyword "class"
  let _ ← wordExcept ["extends", "implements"]
  perhaps g.typeParameters
  g.classHeritage
  g.read .classBody

/-- One variable; the result tells whether it has a value. -/
def declaredVariable (position : Position) : SourceReader Bool := do
  g.pattern
  perhaps (markOf "!" *> ahead (symbol ":") >>= check)
  perhaps (goesOn .declared *> g.typed .declared)
  let value ← maybe (goesOn .declared *> g.initialValue position)
  return value.isSome

def variableDeclaration : SourceReader Unit := do
  keywords ["var", "const"] <|> (keyword "let" *> goesOn .statement)
  let values ← separated (symbol ",") (g.declaredVariable .statement)
  semicolon (values.getLastD false)

def typeAlias : SourceReader Unit := do
  keyword "type"
  goesOn .statement
  let _ ← word
  perhaps g.typeParameters
  markOf "="
  let _ ← g.type .declared
  semicolon false

def namespaceDeclaration : SourceReader Unit := do
  keywords ["namespace", "module"]
  goesOn .statement
  string <|> qualifiedName
  perhaps g.block

/-- A declaration of something that exists elsewhere. -/
def ambientDeclaration (declaration : SourceReader Declaration) : SourceReader Unit := do
  keyword "declare"
  goesOn .statement
  oneOf [
    Functor.discard declaration,
    keyword "global" *> g.block,
    (do
      keyword "module"
      symbol "."
      let _ ← word
      g.typed .declared
      semicolon false)]

/-- A declaration that stands for itself. -/
def plainDeclaration : SourceReader Declaration :=
  oneOf [
    g.interfaceDeclaration,
    g.enumDeclaration,
    g.functionDeclaration *> pure .other,
    g.classDeclaration *> pure .other,
    g.variableDeclaration *> pure .other,
    g.typeAlias *> pure .other,
    g.namespaceDeclaration *> pure .other,
    importAlias *> pure .other]

def declaration : SourceReader Declaration :=
  g.plainDeclaration <|> g.ambientDeclaration g.plainDeclaration *> pure .other

/-- An export; what it declares is its result. -/
def exportStatement : SourceReader Declaration := do
  let _ ← many g.decorator
  keyword "export"
  goesOn .statement
  oneOf [
    (do
      keyword "default"
      g.declaration <|> g.value .statement *> semicolon true *> pure .other),
    g.declaration,
    (do
      symbol "*"
      perhaps (keyword "as" *> (string <|> Functor.discard word))
      let _ ← fromClause
      g.importAttributes
      semicolon false
      return .other),
    (do
      perhaps (keyword "type")
      clauseNames
      perhaps (goesOn .declared *> fromClause *> g.importAttributes)
      semicolon false
      return .other),
    markOf "=" *> g.value .statement *> semicolon true *> pure .other,
    keyword "as" *> keyword "namespace" *> word *> semicolon false *> pure .other]

end Grammar

end StateCursors.TypeScript
