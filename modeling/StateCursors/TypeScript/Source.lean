import StateCursors.Reader
import StateCursors.TypeScript.Trivia

/-!
# Reading source text

The text before a reader always begins right after the last lexeme, so a reader sees the white space
and the comments before the next one.
-/

namespace StateCursors.TypeScript

/-- Takes a construct off the front of a source text. -/
abbrev SourceReader := Reader Glyph

/-- The given characters, with nothing before them. -/
def exactly (characters : List Char) : SourceReader Unit :=
  Reader.these (characters.map .char)

/-- Go to the next lexeme; the comments passed are the result. -/
def gap : SourceReader (List Source) := fun text => some (Trivia.leading text)

/-- Lines that begin with an opening or closing mark of a page's comment. They count as comments in
front of a statement or a member, where no operator can stand. -/
def pageComments : SourceReader Unit :=
  Functor.discard (Reader.many do
    let _ ← gap
    exactly "<!--".toList <|> exactly "-->".toList
    Reader.items fun glyph => !Trivia.endsLine glyph || glyph = .char '\r')

/-- The source text that a reader takes from the next lexeme on, with its result. -/
def withText {α : Type} (reader : SourceReader α) : SourceReader (α × Source) := do
  let _ ← gap
  let start ← get
  let a ← reader
  let rest ← get
  return (a, start.take (start.length - rest.length))

end StateCursors.TypeScript
