import Mathlib.Data.String.Basic
import StateCursors.Text.Literal

/-!
# Values of string literals

A string literal of generated code has a value in the language it is written in: a sequence of
UTF-16 code units. The reader below knows every escape of strict mode and both kinds of quotes. The
literal that is written for a text has the code units of this text as its value, with one exception:
a carriage return is written as it is, and no literal may hold one.
-/

namespace StateCursors

/-- The UTF-16 code units of a code point. -/
def pointUnits (point : Nat) : List Nat :=
  if point < 0x10000 then [point]
  else [0xD800 + (point - 0x10000) / 0x400, 0xDC00 + (point - 0x10000) % 0x400]

/-- The UTF-16 code units of a character. -/
def codeUnits (c : Char) : List Nat :=
  pointUnits c.toNat

/-- The UTF-16 code units of a text. -/
def textUnits (text : List Char) : List Nat :=
  text.flatMap codeUnits

section CodeUnits

theorem codeUnits_append_injective {c d : Char} {rest more : List Nat}
    (hsame : codeUnits c ++ rest = codeUnits d ++ more) : c = d ∧ rest = more := by
  have hvalid : ∀ e : Char, e.toNat < 0xD800 ∨ 0xDFFF < e.toNat ∧ e.toNat < 0x110000 :=
    fun e => e.valid
  have hc := hvalid c
  have hd := hvalid d
  have hnumber : c.toNat = d.toNat ∧ rest = more := by
    unfold codeUnits pointUnits at hsame
    split at hsame <;> split at hsame <;>
      simp only [List.cons_append, List.nil_append, List.cons.injEq] at hsame
    · exact hsame
    -- A character of one unit is no half of a pair.
    · omega
    · omega
    · exact ⟨by omega, hsame.2.2⟩
  exact ⟨Char.toNat_inj.mp hnumber.1, hnumber.2⟩

theorem codeUnits_ne_nil (c : Char) : codeUnits c ≠ [] := by
  unfold codeUnits pointUnits
  split <;> simp

/-- Different texts have different code units. -/
theorem textUnits_injective : Function.Injective textUnits := by
  intro first second hsame
  induction first generalizing second with
  | nil =>
      cases second with
      | nil => rfl
      | cons d more =>
          simp [textUnits, codeUnits_ne_nil] at hsame
  | cons c rest ih =>
      cases second with
      | nil => simp [textUnits, codeUnits_ne_nil] at hsame
      | cons d more =>
          obtain ⟨rfl, hrest⟩ := codeUnits_append_injective hsame
          rw [ih hrest]

theorem textUnits_append (first second : List Char) :
    textUnits (first ++ second) = textUnits first ++ textUnits second :=
  List.flatMap_append

end CodeUnits

/-- Where the reader of a string literal is. -/
inductive LiteralMode
  | plain
  /-- After a backslash. -/
  | escape
  /-- After the escape of the null character, which no digit may follow. -/
  | zero
  /-- After an escaped carriage return, where a line feed belongs to the same line break. -/
  | lineBreak
  /-- In an escape by digits, of which `left` more are to come. -/
  | digits (left value : Nat)
  /-- At the first character of a Unicode escape. -/
  | unicode
  /-- Between the braces of a Unicode escape. -/
  | braces (value? : Option Nat)
  deriving DecidableEq

namespace LiteralMode

/-- The value of a hexadecimal digit. -/
def hexValue? (c : Char) : Option Nat :=
  if c.isDigit then some (c.toNat - '0'.toNat)
  else if 'a' ≤ c ∧ c ≤ 'f' then some (c.toNat - 'a'.toNat + 10)
  else if 'A' ≤ c ∧ c ≤ 'F' then some (c.toNat - 'A'.toNat + 10)
  else none

/-- A character that stands for itself, unless it begins an escape or would end the line. -/
def plainStep? (c : Char) : Option (LiteralMode × List Nat) :=
  if c = '\\' then some (escape, [])
  else if c = '\n' ∨ c = '\r' then none
  else some (plain, codeUnits c)

/-- The character after a backslash. -/
def escapeStep? (c : Char) : Option (LiteralMode × List Nat) :=
  match c with
  | 'n' => some (plain, [0x0A])
  | 't' => some (plain, [0x09])
  | 'b' => some (plain, [0x08])
  | 'v' => some (plain, [0x0B])
  | 'f' => some (plain, [0x0C])
  | 'r' => some (plain, [0x0D])
  | '0' => some (zero, [0])
  | 'x' => some (digits 2 0, [])
  | 'u' => some (unicode, [])
  | '\r' => some (lineBreak, [])
  | '\n' | '\u2028' | '\u2029' => some (plain, [])
  | _ => if c.isDigit then none else some (plain, codeUnits c)

/-- One more digit of an escape. -/
def digitStep? (left value : Nat) (c : Char) : Option (LiteralMode × List Nat) :=
  (hexValue? c).map fun digit =>
    if left ≤ 1 then (plain, [16 * value + digit]) else (digits (left - 1) (16 * value + digit), [])

/-- What a character of a literal adds to its value, unless it may not stand there. -/
def step? : LiteralMode → Char → Option (LiteralMode × List Nat)
  | plain, c => plainStep? c
  | escape, c => escapeStep? c
  | zero, c => if c.isDigit then none else plainStep? c
  | lineBreak, c => if c = '\n' then some (plain, []) else plainStep? c
  | digits left value, c => digitStep? left value c
  | unicode, c => if c = '{' then some (braces none, []) else digitStep? 4 0 c
  | braces value?, c =>
      if c = '}' then value?.map fun point => (plain, pointUnits point)
      else do
        let digit ← hexValue? c
        let point := 16 * value?.getD 0 + digit
        if point ≤ 0x10FFFF then some (braces (some point), []) else none

/-- Whether a literal may end here. -/
def mayEnd : LiteralMode → Bool
  | plain | zero | lineBreak => true
  | escape | digits _ _ | unicode | braces _ => false

/-- The value of the rest of a literal, which ends with its quote. -/
def rest? (quote : Char) : LiteralMode → List Char → Option (List Nat)
  | _, [] => none
  | mode, c :: more =>
      if mode.mayEnd ∧ c = quote then if more = [] then some [] else none
      else (mode.step? c).bind fun (mode, units) => (rest? quote mode more).map (units ++ ·)

end LiteralMode

/-- The value of a text as a string literal, if it is one. -/
def literalValue? (text : String) : Option (List Nat) :=
  match text.toList with
  | quote :: rest =>
    if quote = '\'' ∨ quote = '"' then LiteralMode.rest? quote .plain rest else none
  | [] => none

namespace LiteralMode

/-- A character that stands for itself, in front of the rest of a literal. -/
theorem rest?_plain {quote c : Char} {units : List Nat} (hquote : c ≠ quote)
    (hstep : plainStep? c = some (plain, units)) (more : List Char) :
    rest? quote plain (c :: more) = (rest? quote plain more).map (units ++ ·) := by
  rw [rest?, if_neg (fun h => hquote h.2), step?, hstep]
  rfl

/-- An escape of one character, in front of the rest of a literal. -/
theorem rest?_escape {quote c : Char} {units : List Nat} (hquote : quote ≠ '\\')
    (hstep : escapeStep? c = some (plain, units)) (more : List Char) :
    rest? quote plain ('\\' :: c :: more) = (rest? quote plain more).map (units ++ ·) := by
  have hescaped : rest? quote escape (c :: more) = (rest? quote plain more).map (units ++ ·) := by
    rw [rest?, if_neg (by simp [mayEnd]), step?, hstep]
    rfl
  rw [rest?, if_neg (fun h => hquote h.2.symm)]
  change (rest? quote escape (c :: more)).map ([] ++ ·) = _
  rw [hescaped, Option.map_map]
  rfl

end LiteralMode

namespace Text

/-- An escaped character is read back as it was, unless it is a carriage return. -/
theorem rest?_escapeChar (c : Char) (more : List Char) :
    LiteralMode.rest? '\'' .plain (escapeChar c ++ more) =
      if c = '\r' then none
      else (LiteralMode.rest? '\'' .plain more).map (codeUnits c ++ ·) := by
  unfold escapeChar
  split
  next hslash =>
    subst hslash
    exact LiteralMode.rest?_escape (by decide) rfl more
  next hslash =>
    split
    next hquote =>
      subst hquote
      exact LiteralMode.rest?_escape (by decide) rfl more
    next hquote =>
      split
      next hfeed =>
        subst hfeed
        exact LiteralMode.rest?_escape (by decide) rfl more
      next hfeed =>
        split
        next hreturn =>
          subst hreturn
          rfl
        next hreturn =>
          refine LiteralMode.rest?_plain hquote ?_ more
          rw [LiteralMode.plainStep?, if_neg hslash, if_neg (not_or.mpr ⟨hfeed, hreturn⟩)]

/-- The literal of a text has the text as its value, and is none if the text has a carriage
return. -/
theorem literalValue?_stringLiteral (text : String) :
    literalValue? (stringLiteral text) =
      if '\r' ∈ text.toList then none else some (textUnits text.toList) := by
  have hrest : ∀ cs : List Char,
      LiteralMode.rest? '\'' .plain (cs.flatMap escapeChar ++ ['\'']) =
        if '\r' ∈ cs then none else some (textUnits cs) := by
    intro cs
    induction cs with
    | nil => rfl
    | cons c rest ih =>
        rw [List.flatMap_cons, List.append_assoc, rest?_escapeChar, ih]
        by_cases hc : c = '\r'
        · simp [hc]
        · by_cases hrest : '\r' ∈ rest <;> simp [hc, hrest, Ne.symm hc, textUnits]
  simp [literalValue?, stringLiteral, hrest]

end Text

end StateCursors
