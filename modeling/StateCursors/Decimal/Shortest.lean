import StateCursors.Decimal.Binary64

/-!
# Shortest decimals

The shortest decimal of a floating-point number is the one with the fewest digits among those that
are rounded back to it, and the nearest of those. For every number of digits the two neighbours of
the number on the decimal grid are tried, in exact arithmetic.
-/

namespace StateCursors.Decimal

/-- The fraction `num / den`, and the ends of the interval that is rounded to it, as fractions with
the same denominator; `closed` tells whether the ends belong to the interval. -/
structure Target where
  num : Nat
  den : Nat
  low : Nat
  high : Nat
  closed : Bool

/-- The interval of `significand · 2^exponent`, in quarters of its unit. -/
def target (significand : Nat) (exponent : Int) : Target :=
  let below := if significand = Nat.pow 2 52 ∧ -1074 < exponent then 1 else 2
  let (up, den) := match exponent - 2 with
    | .ofNat up => (Nat.pow 2 up, 1)
    | .negSucc down => (1, Nat.pow 2 (down + 1))
  ⟨4 * significand * up, den, (4 * significand - below) * up, (4 * significand + 2) * up,
    significand % 2 = 0⟩

namespace Target

/-- Whether `digits · 10^scale` lies in the interval. -/
def holds (t : Target) (digits : Nat) (scale : Int) : Bool :=
  let (value, den) := match scale with
    | .ofNat up => (digits * Nat.pow 10 up * t.den, 1)
    | .negSucc down => (digits * t.den, Nat.pow 10 (down + 1))
  if t.closed then t.low * den ≤ value && value ≤ t.high * den
  else t.low * den < value && value < t.high * den

/-- The quotient and the remainder of the fraction by `10^scale`, and the divisor. -/
def onGrid (t : Target) (scale : Int) : Nat × Nat × Nat :=
  let (num, den) := match scale with
    | .ofNat up => (t.num, t.den * Nat.pow 10 up)
    | .negSucc down => (t.num * Nat.pow 10 (down + 1), t.den)
  (num / den, num % den, den)

/-- The neighbour on the grid of `10^scale` that lies in the interval, the nearer if both do. -/
def neighbour? (t : Target) (scale : Int) : Option Nat :=
  let (floor, rest, den) := t.onGrid scale
  let nearer := if 2 * rest < den ∨ (2 * rest = den ∧ floor % 2 = 0) then floor else floor + 1
  let other := if nearer = floor then floor + 1 else floor
  if t.holds nearer scale then some nearer
  else if t.holds other scale then some other
  else none

/-- How often a fraction below one has to be multiplied by ten to reach one. -/
def shift (num den : Nat) : (limit : Nat) → Nat
  | 0 => 0
  | limit + 1 => if den ≤ num then 0 else shift (num * 10) den limit + 1

/-- The place of the first digit: the greatest power of ten that is not above the fraction. -/
def magnitude (t : Target) : Int :=
  if t.den ≤ t.num then (Binary64.digitCount (t.num / t.den) : Int) - 1
  else -(shift t.num t.den 400 : Int)

/-- Try grids from coarse to fine, beginning with the one of `10^scale`. -/
def searchFrom (t : Target) (scale : Int) : (tries : Nat) → Nat × Int
  | 0 => (0, scale)
  | tries + 1 =>
      match t.neighbour? scale with
      | some digits => (digits, scale)
      | none => searchFrom t (scale - 1) tries

end Target

/-- The shortest decimal of a positive number: its digits and the place of the point behind the
first `point` of them. -/
def shortest (significand : Nat) (exponent : Int) : List Char × Int :=
  let t := target significand exponent
  let (digits, scale) := t.searchFrom t.magnitude 18
  let text := Nat.toDigits 10 digits
  let trimmed := (text.reverse.dropWhile (· = '0')).reverse
  (trimmed, text.length + scale)

/-- How numbers are written: with an exponent outside the given places of the point. -/
structure NumberFormat where
  leastPoint : Int
  greatestPoint : Int

/-- Points from three zeros after the point to sixteen digits before it are written as they are. -/
def NumberFormat.standard : NumberFormat := ⟨-3, 16⟩

/-- A number of at least two digits. -/
def twoDigits (n : Nat) : List Char :=
  if n < 10 then '0' :: Nat.toDigits 10 n else Nat.toDigits 10 n

/-- Digits with a point, or with an exponent. -/
def NumberFormat.write (format : NumberFormat) (digits : List Char) (point : Int) : List Char :=
  if format.leastPoint ≤ point ∧ point ≤ format.greatestPoint then
    if point ≤ 0 then '0' :: '.' :: List.replicate (-point).toNat '0' ++ digits
    else if digits.length ≤ point.toNat then
      digits ++ List.replicate (point.toNat - digits.length) '0' ++ ['.', '0']
    else digits.take point.toNat ++ '.' :: digits.drop point.toNat
  else
    let exponent := point - 1
    let fraction := if digits.length ≤ 1 then [] else '.' :: digits.drop 1
    digits.take 1 ++ fraction ++ ['e', if exponent < 0 then '-' else '+'] ++
      twoDigits exponent.natAbs

def text (number : Binary64) : String :=
  let signed (negative : Bool) (digits : List Char) :=
    String.ofList (if negative then '-' :: digits else digits)
  match number with
  | .notANumber => "nan"
  | .infinite negative => signed negative "inf".toList
  | .finite negative 0 _ => signed negative "0.0".toList
  | .finite negative significand exponent =>
      let (digits, point) := shortest significand exponent
      signed negative (NumberFormat.standard.write digits point)

end StateCursors.Decimal
