/-!
# Readers

A reader takes a construct off the front of a list of items or fails; a failed reader leaves the
list to its alternative. `many` stops at the first failure and never fails itself, and its number of
rounds is bounded by the number of items, since a round that takes nothing is the last one needed.
-/

namespace StateCursors

/-- Takes a construct off the front of a list of items, or fails. -/
abbrev Reader (τ : Type) := StateT (List τ) Option

namespace Reader

variable {τ α β : Type}

def check (condition : Bool) : Reader τ Unit :=
  if condition then pure () else failure

/-- The next item, if it has property `p`. -/
def item (p : τ → Bool) : Reader τ τ := fun text =>
  match text with
  | t :: rest => if p t then some (t, rest) else none
  | [] => none

def items (p : τ → Bool) : Reader τ (List τ) := fun text =>
  let taken := text.takeWhile p
  some (taken, text.drop taken.length)

def these [DecidableEq τ] : List τ → Reader τ Unit
  | [] => pure ()
  | t :: rest => do
      let _ ← item (· = t)
      these rest

/-- Nothing, at the end of the list. -/
def atEnd : Reader τ Unit := fun text =>
  if text.isEmpty then some ((), text) else none

/-- Whether a reader would succeed; nothing is taken. -/
def ahead (reader : Reader τ α) : Reader τ Bool := fun text =>
  some ((reader text).isSome, text)

/-- Fail if another reader would succeed. -/
def refuse (reader : Reader τ α) : Reader τ Unit := fun text =>
  if (reader text).isSome then none else some ((), text)

/-- As many readings in a row as succeed, at most `limit` of them. -/
def manyUpTo (reader : Reader τ α) : (limit : Nat) → Reader τ (List α)
  | 0 => pure []
  | limit + 1 => fun text =>
      match reader text with
      | none => some ([], text)
      | some (a, rest) => (manyUpTo reader limit rest).map fun (more, after) => (a :: more, after)

/-- As many readings in a row as succeed. -/
def many (reader : Reader τ α) : Reader τ (List α) := fun text =>
  manyUpTo reader text.length text

/-- Try a reader; the result tells whether it succeeded. -/
def maybe (reader : Reader τ α) : Reader τ (Option α) := fun text =>
  match reader text with
  | some (a, rest) => some (some a, rest)
  | none => some (none, text)

/-- Try a reader and forget what it read. -/
def perhaps (reader : Reader τ α) : Reader τ Unit :=
  Functor.discard (maybe reader)

def oneOf : List (Reader τ α) → Reader τ α
  | [] => failure
  | reader :: more => reader <|> oneOf more

/-- One or more readings with separators between them. -/
def separated (separator : Reader τ β) (reader : Reader τ α) : Reader τ (List α) := do
  let first ← reader
  let more ← many (separator *> reader)
  return first :: more

end Reader

end StateCursors
