import StateCursors.Schema

/-!
# Names in a cursors file

Keys are composed of the names of fields; accessors are named after keys, in lower camel case; a
registry keeps the names of one file apart by numeric suffixes; the state module is imported under
an alias that no other import uses.
-/

namespace StateCursors

/-- Join the parts of a key that are present and not empty. -/
def composeKey (parts : List (Option String)) : String :=
  String.intercalate "." (parts.filterMap fun part => part.filter (· ≠ ""))

/-- Characters of the words that accessors are made of. -/
def isNameChar (c : Char) : Bool :=
  c.isAlphanum || c = '_' || c = '$'

/-- The maximal runs of name characters in a text. -/
def nameWords (text : List Char) : List (List Char) :=
  (text.splitOnP fun c => !isNameChar c).filter (· ≠ [])

/-- A word with its first character in upper case. -/
def capitalize : List Char → List Char
  | [] => []
  | c :: rest => c.toUpper :: rest

/-- Words joined in lower camel case, with a mark before a leading digit. -/
def camelCase : List (List Char) → List Char
  | [] => "field".toList
  | first :: more =>
      let name := first ++ (more.map capitalize).flatten
      if name.head?.any Char.isDigit then '_' :: name else name

/-- The accessor of field `fieldName` in a record under key `under`. -/
def accessorName (under : Option String) (fieldName : String) : String :=
  String.ofList (camelCase (nameWords (under.getD "").toList ++ nameWords fieldName.toList))

/-- The least number from `start` on that is not taken, among the next `tries`. -/
def firstFree (taken : Nat → Bool) (start : Nat) : (tries : Nat) → Nat
  | 0 => start
  | tries + 1 => if taken start then firstFree taken (start + 1) tries else start

def numbered (base : String) (number : Nat) : String :=
  base ++ toString number

/-- The alias `base`, or the first of `base1`, `base2`, … if imports use it. -/
def unusedAlias (base : String) (imports : List NamespaceImport) : String :=
  let used := imports.map (·.name)
  if used.contains base then
    numbered base (firstFree (fun number => used.contains (numbered base number)) 1 used.length)
  else base

/-- The names claimed so far, each with the last number given to it. -/
structure NameRegistry where
  counts : List (String × Nat)

namespace NameRegistry

/-- The registry in which exactly the reserved names are claimed. -/
def ofReserved (reserved : List String) : NameRegistry where
  counts := reserved.map (·, 1)

def isClaimed (registry : NameRegistry) (name : String) : Bool :=
  (registry.counts.lookup name).isSome

/-- Record the last number given to a name. -/
def record (registry : NameRegistry) (name : String) (count : Nat) : NameRegistry where
  counts := (name, count) :: registry.counts.filter (·.1 ≠ name)

/-- Give `name` out, or a numbered form of it that nobody claimed. -/
def claim (registry : NameRegistry) (name : String) : String × NameRegistry :=
  match registry.counts.lookup name with
  | none => (name, registry.record name 1)
  | some last =>
      let count := firstFree (fun number => registry.isClaimed (numbered name number)) (last + 1)
        registry.counts.length
      let unique := numbered name count
      (unique, (registry.record name count).record unique 1)

end NameRegistry

/-- The name of the accessor that every cursors file declares for its root. -/
def rootAccessor : String := "root"

end StateCursors
