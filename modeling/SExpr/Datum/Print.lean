import SExpr.Datum.Source

/-!
# Printing data

Printing puts the source text of a datum together from its parts, and stops at the first integer
that has too many digits to be written.

A datum within a datum is printed by a call within a call. `print` takes it for granted that there
is room for all of these, however deeply the datum is nested. `printWithin` has room for so many
nested calls and fails where one more is needed.
-/
namespace SExpr

namespace Text

def printNat (n : Nat) : Except CountError Text :=
  if CountError.digitLimit < (ofNat n).length then .error .tooLarge else .ok (ofNat n)

def printInt : Int → Except CountError Text
  | .ofNat n => printNat n
  | .negSucc n => (printNat (n + 1)).map ('-' :: ·)

end Text

/-- Prints a number. A whole number is printed as an integer. -/
def Binary64.print : Binary64 → Except CountError Text
  | finite x =>
    if x.magnitude.isWhole then (Text.printNat x.magnitude.floor).map (Decimal.signed x.negative)
    else .ok x.shortest.positional
  | x => .ok x.written

namespace Datum

def printEllipsis (count : Int) : Except CountError Text :=
  if count = 0 then .ok "...".toList else (Text.printInt count).map ("..".toList ++ ·)

mutual

/-- Prints a datum, nested however deeply. -/
def print : Datum → Except CountError Text
  | number x => x.print
  | boolean b => .ok (booleanSource b)
  | symbol name => .ok name
  | nil => .ok "()".toList
  | cons car cdr => do
    let first ← car.print
    let rest ← cdr.printParts
    return bracketed (first :: rest)
  | ellipsis n => printEllipsis n

def printParts : Datum → Except CountError (List Text)
  | number x => do
    let tail ← x.print
    return [['.'], tail]
  | boolean b => .ok [['.'], booleanSource b]
  | symbol name => .ok [['.'], name]
  | nil => .ok []
  | cons car cdr => do
    let first ← car.print
    let rest ← cdr.printParts
    return first :: rest
  | ellipsis n => do
    let tail ← printEllipsis n
    return [tail]

end

/-! ## Limited nesting -/

/-- Why a datum is not printed: an integer has too many digits, or there is no room for a call. -/
inductive PrintError
  | count (e : CountError)
  | tooDeep
  deriving DecidableEq, Repr

mutual

/-- Prints a datum where at most so many calls may be nested. -/
def printWithin : Datum → (calls : Nat) → Except PrintError Text
  | _, 0 => .error .tooDeep
  | cons car cdr, calls + 1 => do
    let first ← car.printWithin calls
    let rest ← cdr.printPartsWithin calls
    return bracketed (first :: rest)
  | leaf, _ + 1 => leaf.print.mapError .count

/-- Prints what stands between the brackets of a chain, a tail other than an ellipsis by a call of
its own. -/
def printPartsWithin : Datum → (calls : Nat) → Except PrintError (List Text)
  | nil, _ => .ok []
  | cons car cdr, calls => do
    let first ← car.printWithin calls
    let rest ← cdr.printPartsWithin calls
    return first :: rest
  | ellipsis n, _ => (ellipsis n).printParts.mapError .count
  | _, 0 => .error .tooDeep
  | leaf, _ + 1 => leaf.printParts.mapError .count

end

end Datum

end SExpr
