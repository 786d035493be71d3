import SExpr.Number.Decimal

/-!
# Binary floating-point numbers of 64 bits

A finite number is a sign, a significand below `2 ^ 53` and a power of two. The significand fills
53 bits unless the exponent is the least one, so every finite number, each zero included, has one
representation. Infinities keep their sign, and all NaNs are one value.

A ratio is rounded to the nearest number with 53 significant bits, or to the nearest multiple of
the least positive number if that is coarser. Of two equally near ones the even significand is
taken. What is too large becomes infinite, and what is too small a zero of the same sign.

Among the decimals that round to a given finite number, the shortest has the fewest digits and is
the nearest of those; an exact tie goes to the even last digit. For each count of digits only the
two neighbours of the number on that decimal grid can be the nearest, and whether one rounds to
the number is tested literally. Every result reads back because of that test.

The written form serves as source text: a whole number is written with all its digits, any other
finite number by its shortest decimal without an exponent. The debug form tells a number from an
integer by a point or an exponent. Reading undoes both for finite numbers.
-/
namespace SExpr

/-! ## Ratios -/

/-- The quotient `num / den`. -/
structure Ratio where
  num : Nat
  den : Nat
  deriving DecidableEq, Repr

namespace Ratio

def scale (r : Ratio) (base : Nat) (exponent : Int) : Ratio :=
  ⟨r.num * Nat.pow base exponent.toNat, r.den * Nat.pow base (-exponent).toNat⟩

def ofScaled (significand base : Nat) (exponent : Int) : Ratio :=
  scale ⟨significand, 1⟩ base exponent

def floor (r : Ratio) : Nat :=
  r.num / r.den

def isWhole (r : Ratio) : Bool :=
  r.num % r.den = 0

/-- The natural number nearest to the ratio, of two the even one. -/
def round (r : Ratio) : Nat :=
  let rest := r.num % r.den
  if 2 * rest < r.den then r.floor
  else if r.den < 2 * rest then r.floor + 1
  else r.floor + r.floor % 2

/-- The greatest `k` with `2 ^ k` not above the ratio, which is positive. -/
def floorLog2 (r : Ratio) : Int :=
  if r.den ≤ r.num then r.floor.log2 else -(((r.den - 1) / r.num).log2 + 1)

/-- The greatest `k` with `10 ^ k` not above the ratio, which is positive. -/
def floorLog10 (r : Ratio) : Int :=
  if r.den ≤ r.num then (Text.ofNat r.floor).length - 1
  else -(Text.ofNat ((r.den - 1) / r.num)).length

end Ratio

/-! ## Numbers -/

namespace Binary64

/-- The significands and exponents that 64 bits can hold, each number in one way. -/
def Canonical (significand : Nat) (exponent : Int) : Prop :=
  significand < Nat.pow 2 53 ∧ -1074 ≤ exponent ∧ exponent ≤ 971 ∧
    (Nat.pow 2 52 ≤ significand ∨ exponent = -1074)

instance (significand : Nat) (exponent : Int) : Decidable (Canonical significand exponent) :=
  inferInstanceAs (Decidable (_ ∧ _ ∧ _ ∧ (_ ∨ _)))

/-- The number `significand * 2 ^ exponent`, negated if `negative`. -/
structure Finite where
  negative : Bool
  significand : Nat
  exponent : Int
  canonical : Canonical significand exponent
  deriving DecidableEq

def Finite.zero (negative : Bool) : Finite :=
  ⟨negative, 0, -1074, by decide⟩

end Binary64

/-- A floating-point number of 64 bits. -/
inductive Binary64
  | finite (value : Binary64.Finite)
  | infinite (negative : Bool)
  | nan
  deriving DecidableEq

namespace Binary64

/-- Equality of values: the two zeros are equal, and NaN differs from everything. -/
def sameValue : Binary64 → Binary64 → Bool
  | finite x, finite y => x = y || (x.significand = 0 && y.significand = 0)
  | infinite x, infinite y => x = y
  | _, _ => false

namespace Finite

def magnitude (x : Finite) : Ratio :=
  .ofScaled x.significand 2 x.exponent

def wholePart (x : Finite) : Decimal :=
  ⟨x.negative, x.magnitude.floor, 0⟩

/-- The exact value in decimal: a negative power of two is the same power of five, scaled. -/
def toDecimal (x : Finite) : Decimal :=
  ⟨x.negative,
    x.significand * Nat.pow 2 x.exponent.toNat * Nat.pow 5 (-x.exponent).toNat,
    if 0 ≤ x.exponent then 0 else x.exponent⟩

end Finite

/-! ## Rounding -/

/-- The finite number with these fields, or infinity where they are out of range. -/
def ofFields (negative : Bool) (significand : Nat) (exponent : Int) : Binary64 :=
  if h : Canonical significand exponent then finite ⟨negative, significand, exponent, h⟩
  else infinite negative

/-- The exponent of the numbers among which a positive ratio is rounded. -/
def roundingExponent (r : Ratio) : Int :=
  if r.floorLog2 - 52 ≤ -1074 then -1074 else r.floorLog2 - 52

/-- The floating-point number nearest to a ratio, negated if `negative`. A significand that is
rounded up to 54 bits is halved. -/
def ofRatio (negative : Bool) (r : Ratio) : Binary64 :=
  if r.num = 0 then finite (.zero negative)
  else
    let exponent := roundingExponent r
    let significand := (r.scale 2 (-exponent)).round
    if significand = Nat.pow 2 53 then ofFields negative (Nat.pow 2 52) (exponent + 1)
    else ofFields negative significand exponent

def ofDecimal (d : Decimal) : Binary64 :=
  ofRatio d.negative (.ofScaled d.significand 10 d.exponent)

/-! ## Texts -/

namespace Finite

def ReadsBack (x : Finite) (d : Decimal) : Prop :=
  ofDecimal d = finite x

instance (x : Finite) (d : Decimal) : Decidable (x.ReadsBack d) :=
  inferInstanceAs (Decidable (_ = _))

/-- The nearest multiple of `10 ^ exponent` that reads back, if a neighbour of the number does. -/
def nearestMultiple? (x : Finite) (exponent : Int) : Option Decimal :=
  let r := x.magnitude.scale 10 (-exponent)
  let near := r.round
  let far := if near = r.floor then near + 1 else near - 1
  [near, far].map (⟨x.negative, ·, exponent⟩) |>.find? (x.ReadsBack ·)

/-- The shortest decimal that reads back. Seventeen digits are always enough. -/
def shortest (x : Finite) : Decimal :=
  if x.significand = 0 then ⟨x.negative, 0, 0⟩
  else
    let leading := x.magnitude.floorLog10
    match (List.range 17).findSome? fun (n : Nat) => x.nearestMultiple? (leading - n) with
    | some d => d.trimmed
    | none => x.toDecimal

end Finite

def infinityText (negative : Bool) : Text :=
  Decimal.signed negative "inf".toList

def written : Binary64 → Text
  | finite x => if x.magnitude.isWhole then x.wholePart.positional else x.shortest.positional
  | infinite negative => infinityText negative
  | nan => "nan".toList

def debug : Binary64 → Text
  | finite x => x.shortest.debug
  | infinite negative => infinityText negative
  | nan => "nan".toList

/-- Reads a number from positional or scientific notation, or from the name of one that is not
finite. -/
def ofText (t : Text) : Binary64 :=
  if t = "nan".toList then nan
  else if t = "inf".toList then infinite false
  else if t = "-inf".toList then infinite true
  else ofDecimal (.ofScientific t)

end Binary64

end SExpr
