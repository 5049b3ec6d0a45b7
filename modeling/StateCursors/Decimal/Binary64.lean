/-!
# Binary floating point

A number in binary floating point of double precision is `m · 2^q` with `m` below `2^53`, or one of
the values beyond. A decimal is rounded to the nearest such number; of two equally near ones the one
with even `m` is taken.
-/

namespace StateCursors

/-- A double-precision number; a finite one is `significand · 2^exponent` with a sign. -/
inductive Binary64
  | finite (negative : Bool) (significand : Nat) (exponent : Int)
  | infinite (negative : Bool)
  | notANumber
  deriving DecidableEq

namespace Binary64

/-- The quotient rounded to the nearest integer, a half to the even one. -/
def divRound (num den : Nat) : Nat :=
  let quotient := num / den
  let twice := 2 * (num % den)
  if twice < den then quotient
  else if den < twice then quotient + 1
  else quotient + quotient % 2

/-- The integer nearest to `num / den / 2^exponent`. -/
def scaled (num den : Nat) (exponent : Int) : Nat :=
  match exponent with
  | .ofNat up => divRound num (den * Nat.pow 2 up)
  | .negSucc down => divRound (num * Nat.pow 2 (down + 1)) den

/-- The number nearest to the positive fraction `num / den`. -/
def ofFraction (negative : Bool) (num den : Nat) : Binary64 :=
  let exponent := max ((num.log2 : Int) - den.log2 - 53) (-1074)
  let exponent :=
    if Nat.pow 2 53 ≤ scaled num den exponent then max (exponent + 1) (-1074) else exponent
  let significand := scaled num den exponent
  let (significand, exponent) :=
    if significand = Nat.pow 2 53 then (Nat.pow 2 52, exponent + 1) else (significand, exponent)
  if 971 < exponent then infinite negative else finite negative significand exponent

/-- The number of decimal digits of a positive number. -/
def digitCount (n : Nat) : Nat := (Nat.toDigits 10 n).length

/-- The number nearest to `digits · 10^scale`. -/
def ofDecimal (negative : Bool) (digits : Nat) (scale : Int) : Binary64 :=
  if digits = 0 then finite negative 0 (-1074)
  else if 310 < digitCount digits + scale then infinite negative
  else if digitCount digits + scale < -330 then finite negative 0 (-1074)
  else match scale with
    | .ofNat up => ofFraction negative (digits * Nat.pow 10 up) 1
    | .negSucc down => ofFraction negative digits (Nat.pow 10 (down + 1))

end Binary64

end StateCursors
