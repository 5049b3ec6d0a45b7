import StateCursors.Text.Utf8

/-!
# White space, comments and the ends of statements

Between two lexemes stand white space and comments. A statement that is not closed by a semicolon
ends at a line break, before a closing brace or with the file, unless what follows continues it;
`Trivia.endsStatement` is that decision. It looks past white space and comments by itself, because a
comment may be all that stands between a statement and the line break that ends it.
-/

namespace StateCursors.TypeScript

abbrev Source := List Glyph

namespace Trivia

def isSpaceChar (c : Char) : Bool :=
  let n := c.toNat
  (9 ≤ n && n ≤ 13) || n = 32 || n = 0xA0 || n = 0x1680 || (0x2000 ≤ n && n ≤ 0x200B) ||
    n = 0x2028 || n = 0x2029 || n = 0x202F || n = 0x205F || n = 0x2060 || n = 0x3000 || n = 0xFEFF

def isSpace (glyph : Glyph) : Bool :=
  glyph.satisfies isSpaceChar

/-- White space at which a statement may end: the breaking kind. -/
def isBreakingSpace (glyph : Glyph) : Bool :=
  glyph.satisfies fun c =>
    let n := c.toNat
    (9 ≤ n && n ≤ 13) || n = 32 || n = 0x1680 || (0x2000 ≤ n && n ≤ 0x200A && n ≠ 0x2007) ||
      n = 0x2028 || n = 0x2029 || n = 0x205F || n = 0x3000

/-- Characters that end a line comment; the null character belongs to no comment. -/
def endsLine (glyph : Glyph) : Bool :=
  glyph.satisfies fun c =>
    c = '\n' || c = '\r' || c.toNat = 0x2028 || c.toNat = 0x2029 || c.toNat = 0

/-- The rest of a block comment up to its end, and what follows. -/
def blockRest : Source → Option (Source × Source)
  | [] => none
  | .char '*' :: .char '/' :: rest => some ([.char '*', .char '/'], rest)
  | glyph :: rest =>
      if glyph = .char '\x00' then none
      else (blockRest rest).map fun (body, after) => (glyph :: body, after)

/-- The comment that a text begins with, and what follows. -/
def comment? : Source → Option (Source × Source)
  | .char '/' :: .char '/' :: rest =>
      let body := rest.takeWhile fun glyph => !endsLine glyph
      some (.char '/' :: .char '/' :: body, rest.drop body.length)
  | .char '/' :: .char '*' :: rest =>
      (blockRest rest).map fun (body, after) => (.char '/' :: .char '*' :: body, after)
  | _ => none

/-- The comments before the next lexeme, at most `limit` of them, and the text from there. -/
def leadingUpTo : (limit : Nat) → Source → List Source × Source
  | 0, text => ([], text)
  | limit + 1, text =>
      let rest := text.dropWhile isSpace
      match comment? rest with
      | some (comment, after) =>
          let (more, final) := leadingUpTo limit after
          (comment :: more, final)
      | none => ([], rest)

/-- The comments before the next lexeme, and the text from there. -/
def leading (text : Source) : List Source × Source :=
  let rest := text.dropWhile isSpace
  match rest with
  | .char '/' :: _ => leadingUpTo rest.length rest
  | _ => ([], rest)

/-- The text from the next lexeme on. -/
def skip (text : Source) : Source :=
  (leading text).2

/-- What a look past blanks and comments found: whether a line comment was among them, and the text
after them. -/
structure Ahead where
  lineComment : Bool
  rest : Source

/-- The rest of a block comment that need not be closed. -/
def afterBlock : Source → Source
  | [] => []
  | .char '*' :: .char '/' :: rest => rest
  | _ :: rest => afterBlock rest

/-- Look past blanks and comments; a slash that starts no comment ends the look without a result. -/
def lookUpTo : (limit : Nat) → Bool → Source → Option Ahead
  | 0, seen, text => some ⟨seen, text⟩
  | limit + 1, seen, text =>
      match text.dropWhile isBreakingSpace with
      | .char '/' :: .char '/' :: rest =>
          lookUpTo limit true (rest.dropWhile fun glyph => glyph ≠ .char '\n')
      | .char '/' :: .char '*' :: rest => lookUpTo limit seen (afterBlock rest)
      | .char '/' :: _ => none
      | rest => some ⟨seen, rest⟩

def look (text : Source) : Option Ahead :=
  lookUpTo (text.length + 1) false text

/-- Whether a text begins with `word` and no letter after it. -/
def beginsWithWord (word : List Char) (text : Source) : Bool :=
  (word.map Glyph.char).isPrefixOf text &&
    !((text.drop word.length).head?.any fun glyph => glyph.satisfies Char.isAlpha)

/-- Whether a statement ends at a line break that this text follows. -/
def endsBefore (operators : Bool) (text : Source) : Bool :=
  match text with
  | .char '{' :: _ => true
  | .char '(' :: _ | .char '[' :: _ => !operators
  | .char '+' :: rest => rest.head? = some (.char '+')
  | .char '-' :: rest => rest.head? = some (.char '-')
  | .char '!' :: rest => rest.head? ≠ some (.char '=')
  | .char c :: _ =>
      !("`,.;*%><=?^|&/:".toList.contains c) &&
        !(beginsWithWord "in".toList text || beginsWithWord "instanceof".toList text)
  | _ => true

/-- Whether a statement ends before a closing brace; it goes on if a colon follows the brace and the
statement cannot be an expression. -/
def endsBeforeBrace (operators : Bool) (afterBrace : Source) : Bool :=
  if (afterBrace.dropWhile isBreakingSpace).head? = some (.char ':') then operators else true

/-- Whether the statement ends at once, not counting what a comment hides. -/
def endsNow (operators : Bool) (text : Source) : Bool :=
  let blanks := text.takeWhile fun glyph => isBreakingSpace glyph && glyph ≠ .char '\n'
  match text.drop blanks.length with
  | [] => true
  | .char '\x00' :: _ => true
  | .char '\n' :: rest =>
      match look rest with
      | some ahead => endsBefore operators ahead.rest
      | none => false
  | .char '}' :: rest => endsBeforeBrace operators rest
  | rest@(.char '/' :: _) =>
      match look rest with
      | none => false
      | some ahead =>
          (ahead.lineComment && ahead.rest.head? ≠ some (.char ',') &&
              ahead.rest.head? ≠ some (.char '=')) ||
            (match ahead.rest with
              | .char '}' :: after => endsBeforeBrace operators after
              | _ => false)
  | _ => false

/-- Whether the statement ends here, looking past at most `limit` comments. -/
def endsUpTo (operators : Bool) : (limit : Nat) → Source → Bool
  | 0, text => endsNow operators text
  | limit + 1, text =>
      endsNow operators text ||
        (match comment? (text.dropWhile isSpace) with
          | some (_, after) => endsUpTo operators limit after
          | none => false)

/-- Whether the statement before this text ends here without a semicolon; `operators` tells whether
an operator could continue it. -/
def endsStatement (operators : Bool) (text : Source) : Bool :=
  endsNow operators text ||
    (match text.dropWhile isSpace with
      | rest@(.char '/' :: _) => endsUpTo operators rest.length text
      | _ => false)

end Trivia

end StateCursors.TypeScript
