import StateCursors.TypeScript.Grammar

/-!
# Types

The rules for types, for parameter lists and for the members of object types and interfaces. A type
argument list and a property keep the comments among their parts, since a comment counts as a part.
-/

namespace StateCursors.TypeScript

open Reader Lexeme

/-- The bar or the ampersand between types, which is no operator on values. -/
def typeConnective (position : Position) : SourceReader Unit :=
  oneOf [
    symbol "|" *> refuse (exactly ['\x7d']) *>
      refuse (check position.operators *> exactly ['|']),
    symbol "&" *> refuse (check position.operators *> exactly ['&'])]

namespace Grammar

variable (g : Grammar)

def initialValue (position : Position) : SourceReader Unit :=
  markOf "=" *> g.value position

def arguments : SourceReader Unit :=
  Functor.discard (sparse "(" ")" (perhaps (symbol "...") *> g.value .operand))

def computedName : SourceReader Unit := do
  symbol "["
  g.value .operand
  symbol "]"

def propertyName : SourceReader Unit :=
  oneOf [Functor.discard word, string, number, privateName, g.computedName]

/-- Type arguments; the comments among them count as arguments. -/
def typeArguments : SourceReader (List Source) := do
  symbol "<"
  let before ← gap
  let first ← g.type .inner
  let after ← gap
  let more ← many do
    symbol ","
    let before ← gap
    let term ← g.type .inner
    let after ← gap
    return before ++ term.parts ++ after
  let trailing ← maybe (symbol "," *> gap)
  symbol ">"
  return before ++ first.parts ++ after ++ more.flatten ++ trailing.getD []

def typeParameter : SourceReader Unit := do
  (keyword "const" *> Functor.discard word) <|> Functor.discard word
  perhaps ((keyword "extends" <|> symbol ":") *> g.type .inner)
  perhaps (markOf "=" *> g.type .inner)

def typeParameters : SourceReader Unit := do
  symbol "<"
  let _ ← separated (symbol ",") g.typeParameter
  perhaps (symbol ",")
  symbol ">"

/-- A type behind a colon. -/
def typed (position : Position) : SourceReader Unit :=
  symbol ":" *> Functor.discard (g.type position)

def decorator : SourceReader Unit := do
  symbol "@"
  oneOf [
    (do
      let _ ← word
      let _ ← many (symbol "." *> Functor.discard word)
      perhaps (g.typeArguments *> pure ())
      perhaps g.arguments),
    symbol "(" *> g.values .operand <* symbol ")"]

def parameterModifiers : List (List String) :=
  [["public", "private", "protected"], ["override"], ["readonly"]]

/-- The pattern of a parameter, which may collect the remaining arguments. -/
def binding : SourceReader Unit :=
  perhaps (symbol "...") *> g.pattern

def parameter : SourceReader Unit := do
  let _ ← many g.decorator
  modifiers g.binding parameterModifiers
  g.binding
  perhaps (symbol "?")
  perhaps (g.typed .inner)
  perhaps (g.initialValue .operand)

def parameters : SourceReader Unit := do
  symbol "("
  perhaps do
    let _ ← separated (symbol ",") g.parameter
    perhaps (symbol ",")
  symbol ")"

/-- What a function promises about a parameter. -/
def assertion (position : Position) : SourceReader Unit := do
  keyword "asserts"
  let _ ← word
  perhaps (goesOn position *> keyword "is" *> g.type position)

/-- A statement about the type of a parameter. -/
def predicate (position : Position) : SourceReader Unit := do
  let _ ← word
  goesOn position
  keyword "is"
  Functor.discard (g.type position)

def returned (position : Position) : SourceReader Unit :=
  oneOf [g.assertion position, g.predicate position, Functor.discard (g.type position)]

/-- Type parameters, parameters and the type of the result. -/
def signature (position : Position) : SourceReader Unit := do
  perhaps g.typeParameters
  g.parameters
  perhaps (goesOn position *> symbol ":" *> g.returned position)

/-- Modifiers of a member of an object type, in their order. -/
def memberModifiers : List (List String) :=
  [["public", "private", "protected"], ["static"], ["override"], ["readonly"]]

/-- What marks a member as a method before its name. -/
def methodMark : SourceReader Unit := do
  let name := g.propertyName
  let async ← maybe (keyword "async" *> goesOn .declared *> ahead (symbol "*" <|> name) >>= check)
  let kind ← maybe ((keywords ["get", "set"] *> goesOn .declared *> ahead name >>= check) <|>
    symbol "*")
  check (async.isSome || kind.isSome)

/-- An index signature or a mapped type clause. -/
def indexSignature (position : Position) : SourceReader Unit := do
  perhaps (perhaps (symbol "+" <|> symbol "-") *> keyword "readonly")
  symbol "["
  let _ ← word
  oneOf [
    symbol ":" *> Functor.discard (g.type .inner),
    keyword "in" *> g.type .inner *> perhaps (keyword "as" *> g.type .inner)]
  symbol "]"
  perhaps (perhaps (symbol "+" <|> symbol "-") *> symbol "?")
  g.typed position

def methodSignature (position : Position) : SourceReader Unit := do
  modifiers g.propertyName memberModifiers
  perhaps g.methodMark
  g.propertyName
  perhaps (goesOn .declared *> symbol "?")
  goesOn .declared
  g.signature position

/-- A property with the comments between its colon and its type. -/
def property (position : Position) : SourceReader Property := do
  modifiers g.propertyName memberModifiers
  let (_, name) ← withText g.propertyName
  perhaps (goesOn .declared *> symbol "?")
  let colon ← maybe (goesOn .declared *> symbol ":")
  if colon.isSome then
    let comments ← gap
    let term ← g.type position
    return ⟨name, match comments, term.form with
      | comment :: _, _ => .comment comment
      | [], .constant => .unspecified
      | [], _ => .term term⟩
  else return ⟨name, .unspecified⟩

/-- A member of an object type; the result is its property, if it is one. -/
def member : SourceReader (Option Property) :=
  oneOf [
    (do g.signature .declared; return none),
    (do
      perhaps (keyword "abstract")
      keyword "new"
      goesOn .declared
      g.signature .declared
      return none),
    (do g.indexSignature .declared; return none),
    (do g.methodSignature .declared; return none),
    (do return some (← g.property .declared)),
    (do
      let _ ← ahead (keyword "export") >>= check
      let _ ← g.read .statement
      return none)]

/-- The members between the braces of an object type or an interface. -/
def objectBody : SourceReader (List Property) := do
  symbol "\x7b"
  perhaps (exactly ['|'])
  pageComments
  let separator := (symbol "," <|> semicolon false) <* pageComments
  let members ← maybe do
    perhaps ((symbol "," <|> symbol ";") <* pageComments)
    let first ← g.member
    let more ← many (separator *> g.member)
    perhaps separator
    return (first :: more).filterMap id
  symbol "\x7d" <|> symbol "|\x7d"
  return members.getD []

def tuplePart : SourceReader Unit :=
  oneOf [
    (do
      perhaps (symbol "...")
      let _ ← word
      perhaps (symbol "?")
      g.typed .inner),
    symbol "..." *> Functor.discard (g.type .inner),
    g.type .inner *> perhaps (symbol "?")]

def tupleType : SourceReader Unit := do
  symbol "["
  perhaps (separated (symbol ",") g.tuplePart)
  perhaps (symbol ",")
  symbol "]"

def functionType (position : Position) : SourceReader Unit := do
  perhaps g.typeParameters
  g.parameters
  markOf "=>"
  g.returned position

def constructorType (position : Position) : SourceReader Unit := do
  perhaps (keyword "abstract")
  keyword "new"
  perhaps g.typeParameters
  g.parameters
  symbol "=>"
  Functor.discard (g.type position)

/-- The type of a value, given by its path. -/
def typeQuery : SourceReader Unit := do
  keyword "typeof"
  (keyword "import" *> g.arguments) <|> Functor.discard (wordExcept ["import"])
  Functor.discard (many (oneOf [
    (symbol "." <|> symbol "?.") *> (privateName <|> Functor.discard word),
    symbol "[" *> oneOf [string, number, Functor.discard word] <* symbol "]",
    Functor.discard g.typeArguments]))

/-- A type from another module, given by its path. -/
def importType : SourceReader Unit := do
  keyword "import"
  let step := symbol "." *> (privateName <|> Functor.discard word) *> perhaps g.arguments
  Functor.discard (g.arguments *> many step <|> separated (pure ()) step)

/-- Words that begin a type of another form. -/
def typeOperators : List String :=
  ["typeof", "keyof", "readonly", "infer", "new", "abstract", "unique", "import"]

def closedTypes : List String :=
  ["any", "number", "boolean", "string", "symbol", "void", "unknown", "never", "object", "true",
    "false", "null", "undefined", "this"]

/-- A type given by a name, with type arguments if they follow. -/
def namedType (position : Position) : SourceReader TypeForm := do
  let (_, name) ← withText do
    let _ ← wordExcept ("const" :: typeOperators ++ closedTypes)
    many (symbol "." *> Functor.discard word)
  match ← maybe (goesOn position *> g.typeArguments) with
  | some arguments => return .generic name arguments
  | none => return .other

def typeAtom (position : Position) : SourceReader TypeForm :=
  oneOf [
    g.namedType position,
    keywords closedTypes *> pure .other,
    keyword "const" *> pure .constant,
    keyword "unique" *> keyword "symbol" *> pure .other,
    g.typeQuery *> pure .other,
    symbol "(" *> g.type .inner *> symbol ")" *> pure .other,
    g.objectBody *> pure .other,
    g.tupleType *> pure .other,
    string *> pure .other,
    perhaps (symbol "-" <|> symbol "+") *> number *> pure .other,
    templateWith (Functor.discard (g.type .inner)) *> pure .other,
    symbol "*" *> pure .other]

/-- What stands in brackets behind a type: an index, or nothing; and the comments passed. -/
def typeBrackets (position : Position) : SourceReader (Option TypeTerm × List Source) := do
  goesOn position
  let before ← gap
  symbol "["
  let index ← maybe (g.type .inner)
  let after ← gap
  symbol "]"
  return (index, before ++ after)

/-- Array brackets and indices behind a type that begins at `start`, at most `limit` of them. The
first part of an array is its element, or the first comment if the element counts as no part. -/
def typeSuffixes (position : Position) (start : Source) :
    (limit : Nat) → TypeForm → SourceReader TypeForm
  | 0, form => pure form
  | limit + 1, form => do
      let rest ← get
      let element := start.take (start.length - rest.length)
      match ← maybe (g.typeBrackets position) with
      | none => pure form
      | some (none, comments) =>
          let first? := match form with
            | .constant => comments.head?
            | _ => some element
          typeSuffixes position start limit (.array first?)
      | some (some _, _) => typeSuffixes position start limit .other

/-- A type with its array brackets and indices. -/
def typeOperand (position : Position) : SourceReader TypeForm := do
  let _ ← gap
  let start ← get
  let form ← g.typeAtom position
  g.typeSuffixes position start start.length form

/-- What may follow a complete type: another type behind a connective, or a condition. -/
def typeContinuation (position : Position) : SourceReader Unit := do
  goesOn position
  oneOf [
    typeConnective position *> Functor.discard (g.type position),
    (do
      keyword "extends"
      let _ ← g.type .inner
      symbol "?"
      let _ ← g.type .inner
      symbol ":"
      Functor.discard (g.type position))]

/-- A type that begins with an operator or a parameter list. -/
def operatorType (position : Position) : SourceReader Unit :=
  oneOf [
    g.functionType position,
    g.constructorType position,
    (keyword "readonly" <|> keyword "keyof" <|> symbol "?" <|> typeConnective position) *>
      Functor.discard (g.type position),
    (do
      keyword "infer"
      let _ ← word
      perhaps (goesOn position *> keyword "extends" *> g.type position)
      perhaps (g.typeContinuation position)),
    g.importType *> perhaps (g.typeContinuation position)]

def typeForm (position : Position) : SourceReader TypeForm :=
  (g.operatorType position *> pure .other) <|> do
    let form ← g.typeOperand position
    match ← maybe (g.typeContinuation position) with
    | some _ => return .other
    | none => return form

def typeTerm (position : Position) : SourceReader TypeTerm := do
  let (form, text) ← withText (g.typeForm position)
  return ⟨form, text⟩

end Grammar

end StateCursors.TypeScript
