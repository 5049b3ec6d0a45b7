import StateCursors.Text.Parts
import StateCursors.Unicode.Blank

/-!
# Console output

What the command line prints: lines with markup tags in brackets, tables, rules and code. Titles and
cells are markup too. A text that is no markup has its tags escaped before it is printed, so that
nothing in it is taken for a tag. What a terminal shows of markup is told here without colours,
without the handlers that a tag may name and without what its width does to a line.
-/

namespace StateCursors

/-- One thing that is printed. -/
inductive ConsoleItem
  | line (markup : String)
  | table (title : Option String) (columns : List String) (rows : List (List String))
  | rule (title : String)
  /-- A text that is no markup. -/
  | code (text : String)
  deriving DecidableEq

namespace Markup

/-- Characters that may follow the bracket of a tag. -/
def beginsTag (c : Char) : Bool :=
  ('a' ≤ c && c ≤ 'z') || c = '#' || c = '/' || c = '@'

/-- The rest of a tag up to its closing bracket, if no other bracket is opened before. -/
def tagRest : List Char → Option (List Char)
  | [] => none
  | c :: rest =>
      if c = ']' then some [c]
      else if c = '[' then none
      else (tagRest rest).map (c :: ·)

/-- Whether a tag begins with the bracket before this text. -/
def isTag : List Char → Bool
  | [] => false
  | c :: rest => beginsTag c && (tagRest rest).isSome

/-- Escape tags in a text that `slashes` backslashes precede: these are doubled before a tag, which
gets one more. -/
def escapeTags : (slashes : Nat) → List Char → List Char
  | slashes, [] => List.replicate slashes '\\'
  | slashes, c :: rest =>
      if c = '\\' then escapeTags (slashes + 1) rest
      else if c = '[' ∧ isTag rest then
        List.replicate (2 * slashes + 1) '\\' ++ '[' :: escapeTags 0 rest
      else List.replicate slashes '\\' ++ c :: escapeTags 0 rest

/-- A backslash at the end of a text would escape what is printed after it, so a single one is
doubled. -/
def closeSlash (text : List Char) : List Char :=
  match text.reverse with
  | '\\' :: '\\' :: _ => text
  | '\\' :: _ => text ++ ['\\']
  | _ => text

/-- A text as markup that prints it. -/
def escape (text : String) : String :=
  String.ofList (closeSlash (escapeTags 0 text.toList))

/-- How far markup has been read: to text that some backslashes precede, into a tag, or into a tag
that a backslash makes text. -/
inductive Reading
  | text (slashes : Nat)
  | tag (inner : List Char)
  | escaped

variable (tagName : List Char → List Char)

/-- The names of the tags that are open after a tag. A tag that begins with a slash closes the last
one that was opened, or the last one with the name behind the slash; there must be such a tag. -/
def afterTag (opened : List (List Char)) : (inner : List Char) → Option (List (List Char))
  | '/' :: inner =>
      let name := Unicode.trim (inner.takeWhile (· ≠ '='))
      if name = [] then opened.tail?
      else if opened.contains (tagName name) then some (opened.erase (tagName name))
      else none
  | inner => some (tagName (inner.takeWhile (· ≠ '=')) :: opened)

/-- Put a text in front of the first one of several. -/
def grow (text : List Char) : List (List Char) → List (List Char)
  | [] => [text]
  | first :: rest => (text ++ first) :: rest

/-- The texts between the tags of markup, or nothing if a tag is closed that is not open. A backslash
before a tag makes it a text of its own, two of them are a backslash and the tag, and a backslash
before any other bracket is left out. -/
def texts : Reading → (opened : List (List Char)) → List Char → Option (List (List Char))
  | .text slashes, _, [] => some [List.replicate slashes '\\']
  | _, _, [] => some []
  | .text slashes, opened, c :: rest =>
      if c = '\\' then texts (.text (slashes + 1)) opened rest
      else if c = '[' then
        if isTag rest then
          let more :=
            if slashes % 2 = 0 then texts (.tag []) opened rest
            else (texts .escaped opened rest).map (grow ['['])
          more.map ([[], List.replicate (slashes / 2) '\\'] ++ ·)
        else (texts (.text 0) opened rest).map (grow (List.replicate (slashes - 1) '\\' ++ ['[']))
      else (texts (.text 0) opened rest).map (grow (List.replicate slashes '\\' ++ [c]))
  | .tag inner, opened, c :: rest =>
      if c = ']' then (afterTag tagName opened inner.reverse).bind (texts (.text 0) · rest)
      else texts (.tag (c :: inner)) opened rest
  | .escaped, opened, c :: rest =>
      if c = ']' then (texts (.text 0) opened rest).map ([[']']] ++ ·)
      else (texts .escaped opened rest).map (grow [c])

/-- What is shown of markup, given what is shown of text; nothing if the markup closes a tag that is
not open. -/
def shown? (shown : List Char → List Char) (markup : String) : Option String :=
  (texts tagName (.text 0) [] markup.toList).map fun found =>
    String.ofList (found.flatMap shown)

end Markup

/-- A terminal: the name by which it knows a tag, and what it shows of text. In the place of emoji
codes, which are names between two colons, it may show other characters, and control characters it
may leave out; all else it shows as it is. Brackets and backslashes are no part of either. -/
structure Terminal where
  tagName : List Char → List Char
  shown : List Char → List Char
  plain : ∀ text, (∀ c ∈ text, c ≠ ':' ∧ ' ' ≤ c) → shown text = text
  kept : ∀ text, ∀ c ∈ ['[', '\\'], (shown text).count c = text.count c

namespace Terminal

/-- A terminal that shows all text as it is. -/
def literal : Terminal where
  tagName name := (Unicode.trim name).map Char.toLower
  shown text := text
  plain _ _ := rfl
  kept _ _ _ := rfl

variable (terminal : Terminal)

/-- What a terminal shows of text in the title of a rule, which is one line. -/
def titled (text : List Char) : List Char :=
  (terminal.shown text).map fun c => if c = '\n' then ' ' else c

/-- What a terminal shows of the markup in a line. -/
def line? (markup : String) : Option String :=
  Markup.shown? terminal.tagName terminal.shown markup

/-- What a terminal shows of the markup in the title of a rule. -/
def title? (markup : String) : Option String :=
  Markup.shown? terminal.tagName terminal.titled markup

end Terminal

variable (terminal : Terminal)

/-- The lines that a terminal shows of a printed thing. -/
def ConsoleItem.lines? : ConsoleItem → Option (List String)
  | line markup => (terminal.line? markup).map ([·])
  | table title columns rows => do
      let title ← title.mapM terminal.line?
      let rows ← (columns :: rows).mapM (·.mapM terminal.line?)
      return title.toList ++ rows.map fun cells => "  " ++ String.intercalate "  " cells
  | rule title => (terminal.title? title).map fun title => ["--- " ++ title ++ " ---"]
  | code text => some [text]

/-- The lines that a terminal shows of printed things, up to the first one with faulty markup, and
whether there is none. -/
def shownLines : List ConsoleItem → List String × Bool
  | [] => ([], true)
  | item :: rest =>
      match item.lines? terminal with
      | none => ([], false)
      | some lines =>
          let (more, complete) := shownLines rest
          (lines ++ more, complete)

end StateCursors
