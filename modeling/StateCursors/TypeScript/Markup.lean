import StateCursors.TypeScript.Types

/-!
# Markup elements

Elements with tags, attributes and children, as expressions of the markup dialect hold them.
-/

namespace StateCursors.TypeScript

open Reader Lexeme

namespace Grammar

variable (g : Grammar)

/-- A tag or attribute name, whose parts hyphens, dots or colons join. -/
def markupName : SourceReader Unit := do
  let _ ← word
  Functor.discard (many (item (·.satisfies fun c => c = '-' || c = '.' || c = ':') *> wordHere))

def markupValue : SourceReader Unit := do
  symbol "\x7b"
  perhaps (perhaps (symbol "...") *> g.values .operand)
  symbol "\x7d"

/-- A character written by its name or number. -/
def characterReference : SourceReader Unit := do
  exactly ['&']
  let name ← oneOf [
    exactly ['#'] *> item (·.satisfies fun c => c = 'x' || c = 'X') *> items isHexDigit,
    exactly ['#'] *> items isDecimalDigit,
    items (·.satisfies Char.isAlpha)]
  check !name.isEmpty
  exactly [';']

/-- A string between quotes `quote` as the value of an attribute; only an ampersand is special. -/
def attributeString (quote : Char) : SourceReader Unit := do
  symbol (String.singleton quote)
  let _ ← many (oneOf [
    characterReference,
    exactly ['&'] *> Functor.discard (item fun g =>
      !(g.satisfies fun c => c = '#' || c.isAlpha || c = '\x00')),
    Functor.discard (item fun g => !([quote, '&', '\x00'].any (g = .char ·)))])
  exactly [quote]

def tagAttribute : SourceReader Unit :=
  oneOf [
    g.markupValue,
    (do
      markupName
      perhaps (symbol "=" *> oneOf [attributeString '\'', attributeString '"', g.markupValue,
        g.read .element]))]

def content : SourceReader Unit :=
  oneOf [
    (do
      let text ← items fun g => !("<>\x7b\x7d&\x00".toList.any (g = .char ·))
      check !text.isEmpty),
    characterReference,
    g.markupValue,
    g.read .element]

def element : SourceReader Unit := do
  check g.markup
  symbol "<"
  refuse (symbol "/")
  perhaps (markupName *> perhaps g.typeArguments)
  let _ ← many g.tagAttribute
  (symbol "/" *> symbol ">") <|> (do
    symbol ">"
    let _ ← many g.content
    symbol "<"
    symbol "/"
    perhaps markupName
    symbol ">")

end Grammar

end StateCursors.TypeScript
