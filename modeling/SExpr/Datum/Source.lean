import SExpr.Datum.Basic
import SExpr.Lexeme.Language
import SExpr.Reading.Fault

/-!
# Texts of data

A datum is written in one line of source text with single spaces. Lists use round brackets, and
abbreviations are written out. Reading a written datum gives it back as long as it is readable, so
that some source text denotes it, and its numbers are finite.

The debug text shows the constructors of a datum and tells apart any two data. It is written in
front of a given text, so that a long chain costs no more than its length.
-/
namespace SExpr.Datum

/-! ## Source texts -/

/-- The text of an ellipsis: three points, or two points and a count other than zero. -/
def ellipsisSource (count : Int) : Text :=
  if count = 0 then "...".toList else "..".toList ++ Text.ofInt count

def booleanSource (value : Bool) : Text :=
  if value then "#t".toList else "#f".toList

def bracketed (parts : List Text) : Text :=
  '(' :: Text.join [' '] parts ++ [')']

mutual

/-- The source text of a datum. -/
def source : Datum → Text
  | number x => x.written
  | boolean b => booleanSource b
  | symbol name => name
  | nil => "()".toList
  | cons car cdr => bracketed (car.source :: cdr.parts)
  | ellipsis n => ellipsisSource n

/-- What stands between the brackets of a chain: its items, and then its tail, after a point unless
it is an ellipsis or `nil`. -/
def parts : Datum → List Text
  | number x => [['.'], x.written]
  | boolean b => [['.'], booleanSource b]
  | symbol name => [['.'], name]
  | nil => []
  | cons car cdr => car.source :: cdr.parts
  | ellipsis n => [ellipsisSource n]

end

def listSource (d : Datum) : Text :=
  bracketed d.parts

def sideBySide (data : List Datum) : Text :=
  Text.join [' '] (data.map source)

/-! ## Readable data -/

/-- A count that can be written after the points of an ellipsis. -/
def IsRepeatCount (count : Int) : Prop :=
  0 ≤ count ∧ count.toNat < Nat.pow 10 CountError.digitLimit

/-- A datum that a source text can denote. -/
def Readable : Datum → Prop
  | number x => x ≠ .nan
  | boolean _ => True
  | symbol name => Lexeme.IsSymbolName name
  | nil => True
  | cons car (ellipsis n) => car.Readable ∧ IsRepeatCount n
  | cons car cdr => car.Readable ∧ cdr.Readable
  | ellipsis _ => False

def IsFinite : Datum → Prop
  | number x => ∃ value, x = .finite value
  | cons car cdr => car.IsFinite ∧ cdr.IsFinite
  | _ => True

/-! ## Debug texts -/

def booleanDebug (value : Bool) : Text :=
  if value then "True".toList else "False".toList

def applied (constructor : String) (arguments : Text) : Text :=
  constructor.toList ++ '(' :: arguments

/-- The debug text of a datum, followed by `rest`. -/
def debugBefore (rest : Text) : Datum → Text
  | number x => applied "Number" (x.debug ++ ')' :: rest)
  | boolean b => applied "Boolean" (booleanDebug b ++ ')' :: rest)
  | symbol name => applied "Symbol" (name.quoted ++ ')' :: rest)
  | nil => 'N' :: 'i' :: 'l' :: rest
  | cons car cdr =>
    applied "Cons" (car.debugBefore (',' :: ' ' :: cdr.debugBefore (')' :: rest)))
  | ellipsis n => applied "Ellipsis" (Text.ofInt n ++ ')' :: rest)

def debug (d : Datum) : Text :=
  d.debugBefore []

/-- The debug text of a datum, where a chain is written as all its openings, its tail and all its
closing parentheses. -/
def chainDebug : Datum → Text
  | cons car cdr =>
    let items := (cons car cdr).items
    (items.attach.map fun item => applied "Cons" (item.1.chainDebug ++ [',', ' '])).flatten ++
      cdr.tail.chainDebug ++ List.replicate items.length ')'
  | leaf => leaf.debug
termination_by d => sizeOf d
decreasing_by
  · exact sizeOf_lt_of_mem_items item.2
  · have hle := cdr.sizeOf_tail_le
    rw [cons.sizeOf_spec]
    omega

theorem debugBefore_eq (d : Datum) (rest : Text) : d.debugBefore rest = d.debug ++ rest := by
  induction d generalizing rest with
  | cons car cdr ihCar ihCdr =>
    simp only [debug, debugBefore]
    rw [ihCar, ihCdr, ihCar (_ :: _), ihCdr [')']]
    simp [applied]
  | _ => simp [debug, debugBefore, applied]

theorem debug_cons (car cdr : Datum) :
    (cons car cdr).debug = applied "Cons" (car.debug ++ ',' :: ' ' :: cdr.debug ++ [')']) := by
  simp only [debug, debugBefore]
  rw [debugBefore_eq car, debugBefore_eq cdr]
  simp [debug]

end SExpr.Datum
