import StateCursors.TypeScript.Source

/-!
# Lexemes

Words, punctuation, numbers, strings, templates and regular expressions. A word is a keyword only
where the grammar has a place for one, so the reader of a word is given by the grammar and not by a
list of keywords. A regular expression or a template is read only where the grammar expects one.
-/

namespace StateCursors.TypeScript

open Reader

namespace Lexeme

/-- ASCII characters that belong to no word. -/
def separators : List Char :=
  ":;`\"'@#.,|^&<=>+-*/\\%?!~()[]\x7b\x7d".toList

def isWordChar (c : Char) : Bool :=
  32 ≤ c.toNat && !Trivia.isSpaceChar c && !separators.contains c

def isWordStart (c : Char) : Bool :=
  isWordChar c && !c.isDigit

def isHexDigit (glyph : Glyph) : Bool :=
  glyph.satisfies fun c => c.isDigit || ('a' ≤ c && c ≤ 'f') || ('A' ≤ c && c ≤ 'F')

/-- A code point in a word, as four digits or between braces. -/
def wordEscape : SourceReader Source := do
  exactly ['\\', 'u']
  (do
    let a ← item isHexDigit
    let b ← item isHexDigit
    let c ← item isHexDigit
    let d ← item isHexDigit
    return [.char '\\', .char 'u', a, b, c, d])
  <|> (do
    exactly ['\x7b']
    let digits ← items isHexDigit
    check !digits.isEmpty
    exactly ['\x7d']
    return [.char '\\', .char 'u', .char '\x7b'] ++ digits ++ [.char '\x7d'])

/-- One step of a word. -/
def wordStep (p : Char → Bool) : SourceReader Source :=
  (do return [← item (·.satisfies p)]) <|> wordEscape

/-- The characters of a word, at the very front of the text. -/
def wordHere : SourceReader Source := do
  let first ← wordStep isWordStart
  let more ← many (wordStep isWordChar)
  return first ++ more.flatten

def word : SourceReader Source := gap *> wordHere

/-- The characters of a keyword as source text. -/
def spelled (keyword : String) : Source :=
  keyword.toList.map .char

/-- The keyword `keyword`, which no further word character follows. -/
def keyword (keyword : String) : SourceReader Unit := do
  let text ← word
  check (text = spelled keyword)

def keywords (keywords : List String) : SourceReader Unit := do
  let text ← word
  check ((keywords.map spelled).contains text)

/-- A word that is none of the given keywords. -/
def wordExcept (keywords : List String) : SourceReader Source := do
  let text ← word
  check !((keywords.map spelled).contains text)
  return text

/-- Punctuation, however the text goes on. -/
def symbol (text : String) : SourceReader Unit := gap *> exactly text.toList

/-- The operators and other marks of expressions, longer ones before their beginnings. -/
def marks : List String :=
  [">>>=", "...", "===", "!==", "**=", "<<=", ">>=", ">>>", "&&=", "||=", "??=", "=>", "==", "!=",
    "<=", ">=", "&&", "||", "??", "?.", "++", "--", "+=", "-=", "*=", "/=", "%=", "&=", "|=", "^=",
    "<<", ">>", "**", "<", ">", "+", "-", "*", "/", "%", "&", "|", "^", "!", "~", "?", ":", "=",
    ".", ",", ";", "(", ")", "[", "]"]

/-- The longest mark that the text begins with. -/
def mark : SourceReader String := do
  let _ ← gap
  oneOf (marks.map fun text => do exactly text.toList; return text)

/-- The mark `text`, read as a longest mark. -/
def markOf (text : String) : SourceReader Unit := do
  let found ← mark
  check (found = text)

/-- Digits with property `p`, single underscores between them. -/
def digits (p : Glyph → Bool) : SourceReader Unit := do
  let _ ← item p
  let _ ← many (perhaps (exactly ['_']) *> item p)

def isDecimalDigit (glyph : Glyph) : Bool :=
  glyph.satisfies Char.isDigit

def exponent : SourceReader Unit := do
  let _ ← item fun g => g = .char 'e' || g = .char 'E'
  perhaps (item fun g => g = .char '+' || g = .char '-')
  digits isDecimalDigit

/-- A number with base letter `lower` or `upper`. -/
def basedNumber (lower upper : Char) (p : Glyph → Bool) : SourceReader Unit := do
  exactly ['0']
  let _ ← item fun g => g = .char lower || g = .char upper
  digits p

def number : SourceReader Unit := do
  let _ ← gap
  oneOf [
    basedNumber 'x' 'X' isHexDigit *> perhaps (exactly ['n']),
    basedNumber 'b' 'B' (·.satisfies fun c => c = '0' || c = '1') *> perhaps (exactly ['n']),
    basedNumber 'o' 'O' (·.satisfies fun c => '0' ≤ c && c ≤ '7') *> perhaps (exactly ['n']),
    exactly ['.'] *> digits isDecimalDigit *> perhaps exponent,
    digits isDecimalDigit *> oneOf [
      exactly ['n'],
      exactly ['.'] *> perhaps (digits isDecimalDigit) *> perhaps exponent,
      exponent,
      pure ()]]

/-- What follows the backslash of an escape in a string. -/
def escapeRest : SourceReader Unit :=
  oneOf [
    (do
      let _ ← item fun g => g = .char '\r' || g = .char '?'
      let _ ← item (·.satisfies fun c => c = '\n' || c.toNat = 0x2028 || c.toNat = 0x2029)),
    (do let _ ← item fun g => !("xu01234567\x00".toList.any (g = .char ·))),
    (do let _ ← item (·.satisfies fun c => '0' ≤ c && c ≤ '7')),
    (do
      exactly ['x']
      let _ ← item isHexDigit
      let _ ← item isHexDigit),
    (do
      exactly ['u']
      let _ ← item isHexDigit
      let _ ← item isHexDigit
      let _ ← item isHexDigit
      let _ ← item isHexDigit),
    (do
      exactly ['u', '\x7b']
      digits isHexDigit
      exactly ['\x7d'])]

def escape : SourceReader Unit := exactly ['\\'] *> escapeRest

def stringIn (quote : Char) : SourceReader Unit := do
  let _ ← gap
  exactly [quote]
  let _ ← many (escape <|> Functor.discard (item fun g =>
    !([quote, '\\', '\n', '\r', '\x00'].any (g = .char ·))))
  exactly [quote]

def string : SourceReader Unit := stringIn '\'' <|> stringIn '"'

/-- One glyph of a template's text, which ends at a back quote, an escape or a substitution. -/
def templateGlyph : SourceReader Unit := do
  refuse (exactly ['$', '\x7b'])
  Functor.discard (item fun g => !(['\x60', '\\', '\x00'].any (g = .char ·)))

def templateWith (substitution : SourceReader Unit) : SourceReader Unit := do
  let _ ← gap
  exactly ['\x60']
  let _ ← many (oneOf [
    templateGlyph,
    escape,
    exactly ['$', '\x7b'] *> substitution *> symbol "\x7d"])
  exactly ['\x60']

/-- A class of characters in a regular expression. -/
def regexClass : SourceReader Unit := do
  exactly ['[']
  let _ ← many (oneOf [
    exactly ['\\'] *> Functor.discard (item (· ≠ .char '\n')),
    Functor.discard (item fun g => !([']', '\n', '\\', '\x00'].any (g = .char ·)))])
  exactly [']']

def regex : SourceReader Unit := do
  let _ ← gap
  exactly ['/']
  refuse (exactly ['*'] <|> exactly ['/'])
  let _ ← many (oneOf [
    regexClass,
    exactly ['\\'] *> Functor.discard (item (· ≠ .char '\n')),
    Functor.discard (item fun g => !(['/', '\\', '[', '\n', '\x00'].any (g = .char ·)))])
  exactly ['/']
  let _ ← items (·.satisfies fun c => 'a' ≤ c && c ≤ 'z')

def privateName : SourceReader Unit := do
  let _ ← gap
  exactly ['#']
  let _ ← wordHere

end Lexeme

end StateCursors.TypeScript
