import SExpr.Token

/-!
# Faults

A fault in a source text has a reason and a place. There is no recovery: the first fault ends the
reading, and what was read before it is given up.

The digits after the points of an ellipsis are its repeat count. Digits of any script count, and
a count of more than 4300 digits is refused, leading zeros included. No integer of more digits is
written either.
-/
namespace SExpr

/-! ## Repeat counts -/

/-- Why digits are no count, or an integer has no digits. -/
inductive CountError
  | tooLong (length : Nat)
  | notDecimal (digits : Text)
  | tooLarge
  deriving DecidableEq, Repr

namespace CountError

/-- The most digits a count may have, read or written. -/
def digitLimit : Nat := 4300

def shownLength : Nat := 200

def message : CountError → Text
  | tooLong length =>
    "Exceeds the limit (".toList ++ Text.ofNat digitLimit ++
      " digits) for integer string conversion: value has ".toList ++ Text.ofNat length ++
      " digits; use sys.set_int_max_str_digits() to increase the limit".toList
  | notDecimal digits =>
    "invalid literal for int() with base 10: ".toList ++ (Text.quoted digits).take shownLength
  | tooLarge =>
    "Exceeds the limit (".toList ++ Text.ofNat digitLimit ++
      (" digits) for integer string conversion; " ++
        "use sys.set_int_max_str_digits() to increase the limit").toList

end CountError

/-- The number that decimal digits of any script denote. -/
def Text.decimalNumber (digits : Text) : Nat :=
  digits.foldl (fun n c => 10 * n + (Text.decimalValue? c).getD 0) 0

/-- The count after the points at the front of a text. A text without digits, or with anything but
digits, has the count zero. -/
def repeatCount (t : Text) : Except CountError Nat :=
  let digits := t.dropWhile (· = '.')
  if digits = [] || !digits.all Text.isDigitLike then .ok 0
  else
    let decimals := digits.takeWhile Text.isDecimalDigit
    if CountError.digitLimit < decimals.length then .error (.tooLong decimals.length)
    else if decimals.length < digits.length then .error (.notDecimal digits)
    else .ok (Text.decimalNumber digits)

/-! ## Faults in a text -/

/-- What is wrong in a source text. -/
inductive Fault
  | other (reason : Text)
  | unknownText (text : Text)
  | unexpected (expected found : Text)
  deriving DecidableEq, Repr

def Fault.reason : Fault → Text
  | other reason => reason
  | unknownText text => "unknown token: \"".toList ++ text ++ ['"']
  | unexpected expected found =>
    "expected ".toList ++ expected ++ ", found ".toList ++ found

/-- A fault, the name of the source text, and the place in it. -/
structure SourceError where
  fault : Fault
  filename : Text
  position : Position := {}
  deriving DecidableEq, Repr

def defaultFilename : Text :=
  "<input>".toList

/-- The wording of a fault as `filename:line:column: reason`. -/
def SourceError.message (e : SourceError) : Text :=
  e.filename ++ ':' :: e.position.render ++ ": ".toList ++ e.fault.reason

/-- Why nothing was read: a fault in the text, a count that is refused, a list that was asked for
with a kind of token that opens none, or a character that was asked for where the text has none. -/
inductive ReadError
  | source (e : SourceError)
  | count (e : CountError)
  | notAnOpener (k : Kind)
  | outOfRange
  deriving DecidableEq, Repr

def ReadError.message : ReadError → Text
  | source e => e.message
  | count e => e.message
  | notAnOpener k => k.label ++ " does not open a list".toList
  | outOfRange => "string index out of range".toList

end SExpr
