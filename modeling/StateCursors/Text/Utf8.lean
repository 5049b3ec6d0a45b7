/-!
# UTF-8

A file is a list of octets. Reading it as text gives one glyph for every well-formed character and
one for every octet that belongs to none, so the text around a damaged place can still be read.
`Utf8.decode?` asks for a text without damage; `Utf8.encode` writes one.
-/

namespace StateCursors

abbrev Octets := List UInt8

/-- One unit of a file read as text. -/
inductive Glyph
  | char (c : Char)
  | stray (octet : UInt8)
  deriving DecidableEq

namespace Glyph

/-- The character of a glyph that is one. -/
def char? : Glyph → Option Char
  | char c => some c
  | stray _ => none

/-- Whether a glyph is a character with property `p`. -/
def satisfies (p : Char → Bool) : Glyph → Bool
  | char c => p c
  | stray _ => false

/-- The text of glyphs among which no octet is stray. -/
def text? (glyphs : List Glyph) : Option String :=
  (glyphs.mapM char?).map String.ofList

end Glyph

namespace Utf8

def isContinuation (octet : UInt8) : Bool :=
  0x80 ≤ octet.toNat && octet.toNat < 0xC0

/-- The six bits that a continuation adds to a character. -/
def payload (octet : UInt8) : Nat :=
  octet.toNat % 64

/-- The character of a code point that no shorter form can write. -/
def scalar? (least code : Nat) : Option Char :=
  if least ≤ code && (code < 0xD800 || (0xE000 ≤ code && code < 0x110000)) then
    some (Char.ofNat code)
  else none

/-- The character that begins at octet `lead`, and how many octets continue it. -/
def leading? (lead : UInt8) (rest : Octets) : Option (Char × Nat) :=
  let a := lead.toNat
  if a < 0x80 then some (Char.ofNat a, 0)
  else if a < 0xC0 then none
  else if a < 0xE0 then
    match rest with
    | b :: _ =>
        if isContinuation b then
          (scalar? 0x80 (a % 32 * 64 + payload b)).map (·, 1)
        else none
    | _ => none
  else if a < 0xF0 then
    match rest with
    | b :: c :: _ =>
        if isContinuation b && isContinuation c then
          (scalar? 0x800 ((a % 16 * 64 + payload b) * 64 + payload c)).map (·, 2)
        else none
    | _ => none
  else if a < 0xF8 then
    match rest with
    | b :: c :: d :: _ =>
        if isContinuation b && isContinuation c && isContinuation d then
          (scalar? 0x10000
            (((a % 8 * 64 + payload b) * 64 + payload c) * 64 + payload d)).map (·, 3)
        else none
    | _ => none
  else none

/-- Read octets, of which the first `skip` continue a character already read. -/
def glyphsAfter : (skip : Nat) → Octets → List Glyph
  | _, [] => []
  | skip + 1, _ :: rest => glyphsAfter skip rest
  | 0, lead :: rest =>
      match leading? lead rest with
      | some (c, more) => .char c :: glyphsAfter more rest
      | none => .stray lead :: glyphsAfter 0 rest

/-- Read octets as text. -/
def glyphs (octets : Octets) : List Glyph :=
  glyphsAfter 0 octets

/-- The text of octets that are well formed throughout. -/
def decode? (octets : Octets) : Option String :=
  Glyph.text? (glyphs octets)

def encodeChar (c : Char) : Octets :=
  let n := c.toNat
  if n < 0x80 then [UInt8.ofNat n]
  else if n < 0x800 then [UInt8.ofNat (0xC0 + n / 64), UInt8.ofNat (0x80 + n % 64)]
  else if n < 0x10000 then
    [UInt8.ofNat (0xE0 + n / 4096), UInt8.ofNat (0x80 + n / 64 % 64),
      UInt8.ofNat (0x80 + n % 64)]
  else
    [UInt8.ofNat (0xF0 + n / 262144), UInt8.ofNat (0x80 + n / 4096 % 64),
      UInt8.ofNat (0x80 + n / 64 % 64), UInt8.ofNat (0x80 + n % 64)]

def encode (text : String) : Octets :=
  text.toList.flatMap encodeChar

end Utf8

end StateCursors
