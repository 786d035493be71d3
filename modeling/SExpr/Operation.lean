import SExpr.Reading.Read

/-!
# Operations on a token stream

Every way to use a token stream is an operation: on its characters, on its tokens, and reading data
from it. An operation gives an answer or an error, and in both cases the stream that it leaves.
Operations on characters move the cursor and pay no attention to a token that is looked at.
-/
namespace SExpr

namespace Cursor

/-- The character at a distance from the cursor, and none from the end of the text on. A negative
distance looks back. What would stand before the start is counted back from the end instead, and
there is no such place further back than the whole text. -/
def charAt (c : Cursor) (distance : Int) : Except ReadError (Option Char) :=
  let place := c.offset + distance
  if 0 ≤ place then .ok c.source[place.toNat]?
  else if 0 ≤ place + c.source.length then .ok c.source[(place + c.source.length).toNat]?
  else .error .outOfRange

/-- Whether a character that is already behind the cursor starts a number. -/
def startsNumber (c : Cursor) (first : Char) : Bool :=
  Lexeme.startsNumber first c.ahead

def skipNumber (c : Cursor) (first : Char) : Cursor :=
  c.advance (Lexeme.numberTail first c.ahead)

/-- Moves over the rest of an ellipsis whose first point is behind the cursor, and tells whether
there is one. -/
def skipPoints (c : Cursor) : Kind × Cursor :=
  ((Lexeme.pointTail c.ahead).1, c.advance (Lexeme.pointTail c.ahead).2)

end Cursor

/-- A use of a token stream. -/
inductive Operation
  | peek
  | pop
  | scan
  | drain (withBlanks : Bool)
  | advance
  | charAt (distance : Int)
  | skipClass (k : CharClass)
  | startsNumber (first : Char)
  | skipNumber (first : Char)
  | skipPoints
  | skipTrivia
  | readDatum
  | readAll
  | readList (opener : Kind)
  | expect (k : Kind) (expected : Text)
  deriving DecidableEq, Repr

/-- What an operation finds out. -/
inductive Answer
  | nothing
  | token (t : Token)
  | tokens (ts : List Token)
  | char (c : Option Char)
  | flag (b : Bool)
  | kind (k : Kind)
  | datum (d : Datum)
  | data (ds : List Datum)
  deriving DecidableEq

namespace TokenStream

def moveTo (s : TokenStream) (c : Cursor) : TokenStream :=
  { s with cursor := c }

def perform (filename : Text) (s : TokenStream) :
    Operation → Except ReadError Answer × TokenStream
  | .peek => (.ok (.token s.peek.1), s.peek.2)
  | .pop => (.ok (.token s.pop.1), s.pop.2)
  | .scan => (.ok (.token s.cursor.scan.1), s.moveTo s.cursor.scan.2)
  | .drain withBlanks => (s.listTokens withBlanks).map (.ok <| .tokens ·) id
  | .advance => (.ok (.char s.cursor.ahead.head?), s.moveTo (s.cursor.advance 1))
  | .charAt distance => ((s.cursor.charAt distance).map .char, s)
  | .skipClass k => (.ok .nothing, s.moveTo (s.cursor.skipClass k))
  | .startsNumber first => (.ok (.flag (s.cursor.startsNumber first)), s)
  | .skipNumber first => (.ok .nothing, s.moveTo (s.cursor.skipNumber first))
  | .skipPoints => (.ok (.kind s.cursor.skipPoints.1), s.moveTo s.cursor.skipPoints.2)
  | .skipTrivia => (s.skipTrivia filename).map (·.map fun _ => .nothing) id
  | .readDatum => (s.readDatum filename).map (·.map .datum) id
  | .readAll => (s.readAll filename).map (·.map .data) id
  | .readList opener => (s.readList filename opener).map (·.map .datum) id
  | .expect k expected => (s.expect filename k expected).map (·.map .token) id

/-- Carries out operations one after the other. An error does not stop them. Each answer comes with
the stream after it. -/
def run (filename : Text) (s : TokenStream) :
    List Operation → List (Except ReadError Answer × TokenStream)
  | [] => []
  | op :: ops =>
    let done := s.perform filename op
    done :: done.2.run filename ops

def after (filename : Text) (s : TokenStream) : List Operation → TokenStream
  | [] => s
  | op :: ops => (s.perform filename op).2.after filename ops

theorem after_induction {filename : Text} {P : TokenStream → Prop}
    (hstep : ∀ s op, P s → P (s.perform filename op).2) {s : TokenStream} (h : P s)
    (ops : List Operation) : P (s.after filename ops) := by
  induction ops generalizing s with
  | nil => exact h
  | cons op ops ih => exact ih (hstep s op h)

end TokenStream

end SExpr
