import SExpr.Text.Basic

/-!
# Decimal numbers

A decimal is a signed natural number scaled by a power of ten. It keeps the sign of zero. Its
positional text has no exponent; its scientific text has one digit before the point.
-/
namespace SExpr

/-- The number `significand * 10 ^ exponent`, negated if `negative`. -/
structure Decimal where
  negative : Bool
  significand : Nat
  exponent : Int
  deriving DecidableEq, Repr

namespace Decimal

def signed (negative : Bool) (t : Text) : Text :=
  if negative then '-' :: t else t

def valueOfDigits (digits : Text) : Nat :=
  Nat.ofDigitChars 10 digits 0

/-- Reads digits around an optional point; either side of the point may be empty. -/
def ofUnsigned (negative : Bool) (t : Text) : Decimal :=
  let whole := t.takeWhile Char.isDigit
  let fraction := ((t.dropWhile Char.isDigit).drop 1).takeWhile Char.isDigit
  ⟨negative, valueOfDigits (whole ++ fraction), -fraction.length⟩

/-- Reads an optional minus sign and digits around an optional point. -/
def ofPositional : Text → Decimal
  | '-' :: t => ofUnsigned true t
  | t => ofUnsigned false t

def exponentOf : Text → Int
  | '-' :: t => -valueOfDigits t
  | '+' :: t => valueOfDigits t
  | t => valueOfDigits t

/-- Reads a positional number and the exponent after an `e`, if there is one. -/
def ofScientific (t : Text) : Decimal :=
  let mantissa := ofPositional (t.takeWhile (· ≠ 'e'))
  let exponent := exponentOf ((t.dropWhile (· ≠ 'e')).drop 1)
  { mantissa with exponent := mantissa.exponent + exponent }

/-- Drops trailing zeros of a positive significand; they move into the exponent. -/
def trimmed (d : Decimal) : Decimal :=
  if h : d.significand ≠ 0 ∧ d.significand % 10 = 0 then
    trimmed ⟨d.negative, d.significand / 10, d.exponent + 1⟩
  else d
termination_by d.significand
decreasing_by exact Nat.div_lt_self (Nat.pos_of_ne_zero h.1) (by decide)

def digits (d : Decimal) : Text :=
  Text.ofNat d.significand

/-- The power of ten that the first digit counts. -/
def leadingExponent (d : Decimal) : Int :=
  d.exponent + d.digits.length - 1

/-- Digits with a point only where the exponent is negative, and at least one digit before it. -/
def positional (d : Decimal) : Text :=
  if 0 ≤ d.exponent then
    signed d.negative (d.digits ++ List.replicate d.exponent.toNat '0')
  else
    let places := (-d.exponent).toNat
    let padded := List.leftpad (places + 1) '0' d.digits
    let whole := padded.length - places
    signed d.negative (padded.take whole ++ '.' :: padded.drop whole)

/-- One digit, the others after a point if there are any, and an exponent of two digits or more
with its sign. -/
def scientific (d : Decimal) : Text :=
  let point := if d.digits.length = 1 then [] else '.' :: d.digits.tail
  let mark := if d.leadingExponent < 0 then '-' else '+'
  let exponent := List.leftpad 2 '0' (Text.ofNat d.leadingExponent.natAbs)
  signed d.negative (d.digits.take 1 ++ point ++ 'e' :: mark :: exponent)

/-- Positional for a leading exponent from -4 up to 15, with a fraction of at least one digit, and
scientific otherwise. -/
def debug (d : Decimal) : Text :=
  if -4 ≤ d.leadingExponent ∧ d.leadingExponent < 16 then
    if 0 ≤ d.exponent then d.positional ++ ['.', '0'] else d.positional
  else d.scientific

end Decimal

end SExpr
