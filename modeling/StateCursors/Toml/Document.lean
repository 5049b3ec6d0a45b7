import StateCursors.Toml.Scalar

/-!
# Configuration documents

A document is a sequence of headers and entries. A header opens a table or appends one to an array
of tables; an entry adds a value to the table that is open. Tables that a header has opened or an
entry's dotted key has passed through are not opened again, and the inside of an inline value is
closed to everything.
-/

namespace StateCursors.Toml

open Reader

abbrev KeyPath := List String

namespace Table

/-- Put a value at a key, in its place if the key is there. -/
def put (key : String) (value : Value) : Table → Table
  | [] => [(key, value)]
  | entry :: rest => if entry.1 = key then (key, value) :: rest else entry :: put key value rest

/-- Change the table at a path, making the tables on the way; an array of tables stands for its last
table if `throughArrays` holds. -/
def change (throughArrays : Bool) (f : Table → Option Table) : KeyPath → Table → Option Table
  | [], table => f table
  | key :: path, table =>
      match table.lookup key with
      | none => (change throughArrays f path []).map fun inner => put key (.table inner) table
      | some (.table inner) =>
          (change throughArrays f path inner).map fun inner => put key (.table inner) table
      | some (.array items) =>
          if throughArrays then
            match items.getLast? with
            | some (.table inner) =>
                (change throughArrays f path inner).map fun inner =>
                  put key (.array (items.dropLast ++ [.table inner])) table
            | _ => none
          else none
      | some _ => none

/-- Add an entry under a key that is not there yet. -/
def add (key : String) (value : Value) (table : Table) : Option Table :=
  if (table.lookup key).isSome then none else some (put key value table)

/-- Append an empty table to the array of tables under a key. -/
def append (key : String) (table : Table) : Option Table :=
  match table.lookup key with
  | none => some (put key (.array [.table []]) table)
  | some (.array items) => some (put key (.array (items ++ [.table []])) table)
  | some _ => none

end Table

/-- Whether a value is inline and has an inside. -/
def Value.isContainer : Value → Bool
  | .array _ | .table _ => true
  | _ => false

/-- Whether a path leads into one of the closed ones. -/
def leadsInto (closed : List KeyPath) (path : KeyPath) : Bool :=
  closed.any fun inside => inside.isPrefixOf path

/-- White space, line ends and comments between the items of an array. -/
def arrayGap : TextReader Unit := do
  let _ ← many do
    let _ ← items isGap
    exactly "#"
    let _ ← items fun c => !isControl c
    refuse (item fun c => c ≠ '\n')
  let _ ← items isGap
  refuse (exactly "#")

def entry (value : TextReader Value) : TextReader (KeyPath × Value) := do
  let path ← key
  exactly "="
  blanks
  let value ← value
  return (path, value)

def array (value : TextReader Value) : TextReader Value := do
  exactly "["
  arrayGap
  let found ← maybe do
    let found ← separated (exactly "," *> arrayGap) (value <* arrayGap)
    perhaps (exactly "," *> arrayGap)
    return found
  exactly "]"
  return .array (found.getD [])

def collect : List (KeyPath × Value) → (closed : List KeyPath) → Table → Option Table
  | [], _, table => some table
  | (path, value) :: rest, closed, table => do
      if leadsInto closed path then none
      let last ← path.getLast?
      let table ← Table.change false (Table.add last value) path.dropLast table
      collect rest (if value.isContainer then path :: closed else closed) table

def inlineTable (value : TextReader Value) : TextReader Value := do
  exactly "\x7b"
  blanks
  let entries ← maybe (separated (exactly "," *> blanks) (entry value <* blanks))
  exactly "\x7d"
  match collect (entries.getD []) [] [] with
  | some table => return .table table
  | none => failure

/-- A value whose parts are nested less than `depth` deep. -/
def valueWithin : (depth : Nat) → TextReader Value
  | 0 => failure
  | depth + 1 => fun text =>
      oneOf [scalar, array (valueWithin depth), inlineTable (valueWithin depth)] text

def value : TextReader Value := fun text => valueWithin (text.length + 1) text

/-- A line of a document. -/
inductive Line
  | blank
  | header (path : KeyPath)
  | arrayHeader (path : KeyPath)
  | entry (path : KeyPath) (value : Value)

def lineContent : TextReader Line :=
  oneOf [
    (do
      exactly "[["
      blanks
      let path ← key
      exactly "]]"
      return .arrayHeader path),
    (do
      exactly "["
      refuse (exactly "[")
      blanks
      let path ← key
      exactly "]"
      return .header path),
    (do
      let (path, value) ← entry value
      return .entry path value),
    refuse (item fun c => c ≠ '\n' && c ≠ '#') *> pure .blank]

/-- A line with the white space and the comment around what it says. -/
def line : TextReader Line :=
  blanks *> lineContent <* blanks <* comment

def lines : TextReader (List Line) :=
  separated (exactly "\n") line <* atEnd

/-- A document that is being built: its tables, the header that is open, the paths closed to
everything, those that no header may open, and those that none may open after the next header. -/
structure Draft where
  root : Table
  header : KeyPath
  closed : List KeyPath
  opened : List KeyPath
  passed : List KeyPath

/-- The proper beginnings of a path that are not empty. -/
def stepsOf (path : KeyPath) : List KeyPath :=
  (List.range (path.length - 1)).map fun count => path.take (count + 1)

namespace Draft

def start : Draft := ⟨[], [], [], [], []⟩

def open? (draft : Draft) (path : KeyPath) : Option Draft := do
  let opened := draft.opened ++ draft.passed
  if opened.contains path || leadsInto draft.closed path then none
  let root ← Table.change true some path draft.root
  return { draft with
    root := root
    header := path
    opened := path :: opened
    passed := [] }

/-- Append a table to an array of tables. -/
def append? (draft : Draft) (path : KeyPath) : Option Draft := do
  let opened := draft.opened ++ draft.passed
  if leadsInto draft.closed path then none
  let last ← path.getLast?
  let root ← Table.change true (Table.append last) path.dropLast draft.root
  let outside (other : KeyPath) : Bool := !path.isPrefixOf other
  return { root := root
           header := path
           closed := draft.closed.filter outside
           opened := path :: opened.filter outside
           passed := [] }

def add? (draft : Draft) (path : KeyPath) (value : Value) : Option Draft := do
  let steps := (stepsOf path).map (draft.header ++ ·)
  if steps.any draft.opened.contains then none
  let full := draft.header ++ path
  let last ← path.getLast?
  if leadsInto draft.closed full.dropLast then none
  let root ← Table.change true (Table.add last value) full.dropLast draft.root
  return { draft with
    root := root
    closed := if value.isContainer then full :: draft.closed else draft.closed
    passed := draft.passed ++ steps }

def step? (draft : Draft) : Line → Option Draft
  | .blank => some draft
  | .header path => draft.open? path
  | .arrayHeader path => draft.append? path
  | .entry path value => draft.add? path value

end Draft

/-- The table that a document describes, if the text is one. -/
def document? (text : List Char) : Option Table := do
  let (found, _) ← lines text
  let draft ← found.foldlM Draft.step? Draft.start
  return draft.root

end StateCursors.Toml
