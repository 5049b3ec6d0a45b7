/-!
# String literals of generated code

Keys are written between single quotes with backslashes, quotes and line feeds escaped. A key or a
name that is already quoted loses its quotes first.
-/

namespace StateCursors.Text

def escapeChar (c : Char) : List Char :=
  if c = '\\' then ['\\', '\\']
  else if c = '\'' then ['\\', '\'']
  else if c = '\n' then ['\\', 'n']
  else [c]

def stringLiteral (text : String) : String :=
  String.ofList ('\'' :: text.toList.flatMap escapeChar ++ ['\''])

/-- The text between two equal quotes of a kind in `quotes`, or the text itself. -/
def stripQuotes (quotes : List Char) (text : String) : String :=
  match text.toList with
  | first :: inner@(_ :: _) =>
      if quotes.contains first && inner.getLast? = some first then
        String.ofList inner.dropLast
      else text
  | _ => text

/-- A property name or module path without its quotes. -/
def unquote (text : String) : String :=
  stripQuotes ['\'', '"', '`'] text

/-- A root key without its quotes. -/
def bareKey (key : String) : String :=
  stripQuotes ['\'', '"'] key

/-- The literal of a root key, which may be given with quotes. -/
def quoteKey (key : String) : String :=
  stringLiteral (bareKey key)

end StateCursors.Text
