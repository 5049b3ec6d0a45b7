import StateCursors.Reader
import StateCursors.Toml.Value

/-!
# Scalars of a configuration file

Keys, strings, numbers, dates and times as TOML writes them. Lines end with line feeds alone: the
other line endings are turned into them when the file is read.
-/

namespace StateCursors.Toml

open Reader

/-- Takes a construct off the front of a document. -/
abbrev TextReader := Reader Char

def exactly (text : String) : TextReader Unit :=
  these text.toList

def blanks : TextReader Unit :=
  Functor.discard (items fun c => c = ' ' || c = '\t')

/-- Controls, which stand in no comment and no string on one line; a tab is none. -/
def isControl (c : Char) : Bool :=
  (c.toNat < 32 && c ≠ '\t') || c.toNat = 127

def comment : TextReader Unit :=
  (do
    exactly "#"
    let _ ← items fun c => !isControl c
    refuse (item fun c => c ≠ '\n'))
  <|> refuse (exactly "#")

def isBareKeyChar (c : Char) : Bool :=
  c.isAlphanum || c = '_' || c = '-'

def isHexDigit (c : Char) : Bool :=
  c.isDigit || ('a' ≤ c && c ≤ 'f') || ('A' ≤ c && c ≤ 'F')

def digitValue (c : Char) : Nat :=
  if c.isDigit then c.toNat - '0'.toNat
  else if 'a' ≤ c then c.toNat - 'a'.toNat + 10
  else c.toNat - 'A'.toNat + 10

def numeral (base : Nat) (digits : List Char) : Nat :=
  digits.foldl (fun number c => number * base + digitValue c) 0

/-- A fixed number of characters with property `p`. -/
def fixed (p : Char → Bool) : (count : Nat) → TextReader (List Char)
  | 0 => pure []
  | count + 1 => do
      let c ← item p
      return c :: (← fixed p count)

def codePoint (count : Nat) : TextReader (List Char) := do
  let code := numeral 16 (← fixed isHexDigit count)
  check (code < 0xD800 || (0xE000 ≤ code && code < 0x110000))
  return [Char.ofNat code]

/-- What an escape in a string stands for. -/
def escape : TextReader (List Char) := do
  exactly "\\"
  oneOf [
    exactly "b" *> pure ['\x08'],
    exactly "t" *> pure ['\t'],
    exactly "n" *> pure ['\n'],
    exactly "f" *> pure ['\x0c'],
    exactly "r" *> pure ['\r'],
    exactly "\"" *> pure ['"'],
    exactly "\\" *> pure ['\\'],
    exactly "u" *> codePoint 4,
    exactly "U" *> codePoint 8]

/-- Spaces, tabs and line feeds. -/
def isGap (c : Char) : Bool :=
  c = ' ' || c = '\t' || c = '\n'

/-- A backslash at the end of a line, which joins the next text to the line. -/
def lineJoin : TextReader (List Char) := do
  exactly "\\"
  blanks
  exactly "\n"
  let _ ← items isGap
  return []

/-- A string on one line, with escapes. -/
def basicString : TextReader String := do
  exactly "\""
  let parts ← many (escape <|>
    (do return [← item fun c => c ≠ '"' && c ≠ '\\' && !isControl c]))
  exactly "\""
  return String.ofList parts.flatten

/-- A string on one line, without escapes. -/
def literalString : TextReader String := do
  exactly "'"
  let text ← items fun c => c ≠ '\'' && !isControl c
  exactly "'"
  return String.ofList text

/-- The end of a string on several lines; up to two of its quotes belong to the text. -/
def longEnd (quote : Char) : TextReader (List Char) := do
  these [quote, quote, quote]
  let first ← maybe (these [quote])
  if first.isNone then return []
  let second ← maybe (these [quote])
  return if second.isNone then [quote] else [quote, quote]

/-- A string on several lines, whose parts `part` reads. -/
def longString (quote : Char) (part : TextReader (List Char)) : TextReader String := do
  these [quote, quote, quote]
  perhaps (exactly "\n")
  let parts ← many (refuse (these [quote, quote, quote]) *> part)
  let ending ← longEnd quote
  return String.ofList (parts.flatten ++ ending)

/-- A string on several lines, with escapes. -/
def longBasicString : TextReader String :=
  longString '"' (oneOf [
    lineJoin,
    escape,
    (do return [← item fun c => c ≠ '\\' && (c = '\n' || !isControl c)])])

/-- A string on several lines, without escapes. -/
def longLiteralString : TextReader String :=
  longString '\'' (do return [← item fun c => c = '\n' || !isControl c])

def string : TextReader String :=
  oneOf [
    longBasicString,
    refuse (exactly "\"\"\"") *> basicString,
    longLiteralString,
    refuse (exactly "'''") *> literalString]

def keyPart : TextReader String :=
  oneOf [
    (do
      let text ← items isBareKeyChar
      check !text.isEmpty
      return String.ofList text),
    literalString,
    basicString]

def key : TextReader (List String) :=
  separated (exactly "." *> blanks) (keyPart <* blanks)

/-- Digits with property `p`, single underscores between them; the underscores are left out. -/
def digits (p : Char → Bool) : TextReader (List Char) := do
  let first ← item p
  let more ← many (perhaps (exactly "_") *> item p)
  return first :: more

def basedInteger : TextReader Value :=
  oneOf [
    (do exactly "0x"; return .integer (numeral 16 (← digits isHexDigit))),
    (do exactly "0b"; return .integer (numeral 2 (← digits fun c => c = '0' || c = '1'))),
    (do exactly "0o"; return .integer (numeral 8 (← digits fun c => '0' ≤ c && c ≤ '7')))]

/-- A sign; the result tells whether it is a minus. -/
def sign : TextReader Bool :=
  oneOf [exactly "-" *> pure true, exactly "+" *> pure false, pure false]

def exponent : TextReader Int := do
  let _ ← item fun c => c = 'e' || c = 'E'
  let negative ← sign
  let size := numeral 10 (← digits Char.isDigit)
  return if negative then -size else size

/-- A decimal number, with or without a fraction and an exponent. -/
def decimal : TextReader Value := do
  let negative ← sign
  let whole ← (exactly "0" *> pure ['0']) <|> (refuse (exactly "0") *> digits Char.isDigit)
  let fraction ← maybe (exactly "." *> digits Char.isDigit)
  let scale ← maybe exponent
  if fraction.isNone && scale.isNone then
    let number := numeral 10 whole
    return .integer (if negative then -number else number)
  else
    let places := fraction.getD []
    return .float (.ofDecimal negative (numeral 10 (whole ++ places))
      (scale.getD 0 - places.length))

/-- A number that is none, or that is infinite. -/
def specialFloat : TextReader Value := do
  let negative ← sign
  oneOf [
    exactly "inf" *> pure (.float (.infinite negative)),
    exactly "nan" *> pure (.float .notANumber)]

def twoDigits (least greatest : Nat) : TextReader Nat := do
  let number := numeral 10 (← fixed Char.isDigit 2)
  check (least ≤ number && number ≤ greatest)
  return number

/-- A time of day; digits beyond microseconds are dropped. -/
def timeOfDay : TextReader Time := do
  let hour ← twoDigits 0 23
  exactly ":"
  let minute ← twoDigits 0 59
  exactly ":"
  let second ← twoDigits 0 59
  let fraction ← maybe do
    exactly "."
    let digits ← items Char.isDigit
    check !digits.isEmpty
    return digits.take 6
  let places := fraction.getD []
  return ⟨hour, minute, second, numeral 10 (places ++ List.replicate (6 - places.length) '0')⟩

def daysIn (year month : Nat) : Nat :=
  if month = 2 then
    if year % 4 = 0 ∧ (year % 100 ≠ 0 ∨ year % 400 = 0) then 29 else 28
  else if month = 4 ∨ month = 6 ∨ month = 9 ∨ month = 11 then 30
  else 31

/-- A day, which need not exist. -/
def day : TextReader Date := do
  let year := numeral 10 (← fixed Char.isDigit 4)
  exactly "-"
  let month ← twoDigits 1 12
  exactly "-"
  let day ← twoDigits 1 31
  return ⟨year, month, day⟩

def Date.isReal (date : Date) : Bool :=
  1 ≤ date.year && date.day ≤ daysIn date.year date.month

/-- The offset of a time from the standard one, in minutes. -/
def offset : TextReader Int :=
  (do
    let _ ← item fun c => c = 'Z' || c = 'z'
    return 0)
  <|> (do
    let negative ← (exactly "-" *> pure true) <|> (exactly "+" *> pure false)
    let hours ← twoDigits 0 23
    exactly ":"
    let minutes ← twoDigits 0 59
    let size : Int := hours * 60 + minutes
    return if negative then -size else size)

/-- A day, with a time if one follows. -/
def dateTime : TextReader Value := do
  let date ← day
  let timed ← maybe do
    let _ ← item fun c => c = 'T' || c = 't' || c = ' '
    let time ← timeOfDay
    let offset ← maybe offset
    return (time, offset)
  check date.isReal
  return match timed with
    | some (time, offset) => .dateTime date time offset
    | none => .date date

/-- A scalar; what begins like a day is one or nothing. -/
def scalar : TextReader Value :=
  oneOf [
    .string <$> string,
    exactly "true" *> pure (.boolean true),
    exactly "false" *> pure (.boolean false),
    dateTime,
    refuse day *> oneOf [.time <$> timeOfDay, basedInteger, decimal, specialFloat]]

end StateCursors.Toml
