import SExpr.Reading.Read

/-!
# Reading by descent

The reader as loops and recursive calls on a stream, one call for each datum within a datum. Every
loop may have only so many rounds, and calls may be nested in one another only so deeply: what needs
more of them has no outcome. Every token that is taken is recorded.
-/
namespace SExpr

/-- A stream, and the tokens that were taken out of it. -/
structure Descent.State where
  stream : TokenStream
  taken : List Token := []

/-- Reading with an answer, an error or no outcome at all. -/
abbrev Descent (α : Type) : Type :=
  ExceptT ReadError (StateT Descent.State Option) α

namespace Descent

variable {α : Type}

def peek : Descent Token := fun s =>
  some (.ok s.stream.peek.1, { s with stream := s.stream.peek.2 })

def pop : Descent Token := fun s =>
  some (.ok s.stream.pop.1, ⟨s.stream.pop.2, s.taken ++ [s.stream.pop.1]⟩)

def fail (e : ReadError) : Descent α := fun s =>
  some (.error e, s)

def exhausted : Descent α := fun _ =>
  none

def tokens (withBlanks : Bool) : (rounds : Nat) → Descent (List Token)
  | 0 => exhausted
  | rounds + 1 => do
    let token ← peek
    if token.kind = .endOfInput then return []
    else
      let token ← pop
      let rest ← tokens withBlanks rounds
      if withBlanks || !token.kind.isBlank then return token :: rest else return rest

/-- Takes the blanks ahead, and fails at unknown text. -/
def blanks (filename : Text) : (rounds : Nat) → Descent Unit
  | 0 => exhausted
  | rounds + 1 => do
    let token ← peek
    if token.kind.isBlank = true ∨ token.kind = .unknown then
      let token ← pop
      if token.kind = .unknown then fail (Refusal.unknownText.error filename token)
      else blanks filename rounds
    else return ()

/-- Takes the next token if it is the closer of a list. -/
def closer (filename : Text) (b : Bracket) : Descent Unit := do
  let token ← peek
  if token.kind = .closer b then
    let _ ← pop
    return ()
  else fail ((Refusal.wanted (.closer b)).error filename token)

def endsItems (k : Kind) : Bool :=
  match k with
  | .closer _ | .dot | .ellipsis | .endOfInput => true
  | _ => false

def item (filename : Text) (datum : Descent Datum) (rounds : Nat) : Descent Datum := do
  let d ← datum
  blanks filename rounds
  return d

/-- Reads the items of a list, behind those that were read, latest first. -/
def items (item : Descent Datum) : (rounds : Nat) → List Datum → Descent (List Datum)
  | 0, _ => exhausted
  | rounds + 1, read => do
    let token ← peek
    if endsItems token.kind then return read
    else
      let d ← item
      items item rounds (d :: read)

/-- Reads what stands behind the items of a list. A point or an ellipsis needs an item. -/
def tail (filename : Text) (datum : Descent Datum) (read : List Datum) : Descent Datum := do
  let token ← peek
  if token.kind = .dot ∨ token.kind = .ellipsis then
    if read = [] then fail ((Refusal.wanted .expression).error filename token)
    else
      let _ ← pop
      if token.kind = .dot then datum
      else
        match repeatCount token.text with
        | .ok n => return .ellipsis n
        | .error e => fail (.count e)
  else return .nil

def list (filename : Text) (datum : Descent Datum) (rounds : Nat) (b : Bracket) :
    Descent Datum := do
  blanks filename rounds
  let token ← peek
  if token.kind = .closer b then
    let _ ← pop
    return .nil
  else
    let read ← items (item filename datum rounds) rounds []
    let ending ← tail filename datum read
    blanks filename rounds
    closer filename b
    return .ofItems read.reverse ending

def datum (filename : Text) (rounds : Nat) : (calls : Nat) → Descent Datum
  | 0 => exhausted
  | calls + 1 => do
    blanks filename rounds
    let token ← pop
    match token.kind with
    | .number => return .number (.ofDecimal (.ofPositional token.text))
    | .boolean => return .boolean (token.text = "#t".toList)
    | .symbol => return .symbol token.text
    | .abbreviation a =>
      let d ← datum filename rounds calls
      return .ofItems [.symbol a.symbol, d]
    | .opener b => list filename (datum filename rounds calls) rounds b
    | _ => fail ((Refusal.wanted .expression).error filename token)

def listAfter (filename : Text) (rounds calls : Nat) (opener : Kind) : Descent Datum :=
  match opener with
  | .opener b => list filename (datum filename rounds calls) rounds b
  | k => fail (.notAnOpener k)

def dataFrom (item : Descent Datum) : (rounds : Nat) → Descent (List Datum)
  | 0 => exhausted
  | rounds + 1 => do
    let token ← peek
    if token.kind = .endOfInput then return []
    else
      let d ← item
      let rest ← dataFrom item rounds
      return d :: rest

def all (filename : Text) (rounds calls : Nat) : Descent (List Datum) := do
  blanks filename rounds
  dataFrom (item filename (datum filename rounds calls) rounds) rounds

end Descent

/-- The data of a source text, where at most so many calls that read a datum may be nested. Where
there is no room for a call, there is neither an answer nor an error. -/
def parseWithin (calls : Nat) (source : Text) (filename : Text := defaultFilename) :
    Option (Except ReadError (List Datum)) :=
  (Descent.all filename ((tokenize source).length + 1) calls ⟨.ofText source, []⟩).map Prod.fst

end SExpr
