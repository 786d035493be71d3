import SExpr.Lexeme.Kind

/-!
# The lexeme at the front of a text

The first character and a look at the next two decide the kind of a lexeme, and with the kind how
far it reaches. Each reader here is given the text after the first character and answers with the
number of further characters that belong to the lexeme.
-/
namespace SExpr.Lexeme

def single? (c : Char) : Option Kind :=
  if c = '(' then some (.opener .round)
  else if c = ')' then some (.closer .round)
  else if c = '[' then some (.opener .square)
  else if c = ']' then some (.closer .square)
  else if c = '\'' then some (.abbreviation .quote)
  else if c = '`' then some (.abbreviation .quasiquote)
  else none

/-- A number starts with a digit, with a point before a digit, or with a minus sign before one of
these. -/
def startsNumber (first : Char) (rest : Text) : Bool :=
  if first.isDigit then true
  else if first = '-' then
    match rest with
    | '.' :: d :: _ => d.isDigit
    | d :: _ => d.isDigit
    | [] => false
  else if first = '.' then
    match rest with
    | d :: _ => d.isDigit
    | [] => false
  else false

/-- A number is digits with at most one point among them, so a second point starts a new lexeme. -/
def numberTail (first : Char) (rest : Text) : Nat :=
  let whole := CharClass.digit.run rest
  match rest.drop whole with
  | '.' :: fraction => if first = '.' then whole else whole + 1 + CharClass.digit.run fraction
  | _ => whole

/-- A point that starts no number is an ellipsis with two more points, or with one more point and
digits; otherwise it stands alone. -/
def pointTail : Text → Kind × Nat
  | '.' :: '.' :: _ => (.ellipsis, 2)
  | '.' :: rest =>
    let count := CharClass.digit.run rest
    if count = 0 then (.dot, 0) else (.ellipsis, count + 1)
  | _ => (.dot, 0)

/-- A hash sign with `t` or `f` is a boolean, whatever follows; any other starts an unknown run. -/
def hashTail : Text → Kind × Nat
  | 't' :: _ => (.boolean, 1)
  | 'f' :: _ => (.boolean, 1)
  | rest => (.unknown, CharClass.unknown.run rest)

def commaTail : Text → Kind × Nat
  | '@' :: _ => (.abbreviation .unquoteSplicing, 1)
  | _ => (.abbreviation .unquote, 0)

def commentTail (rest : Text) : Nat :=
  (rest.takeWhile fun c => c ≠ '\r' && c ≠ '\n').length

/-- The kind of the lexeme that starts with `first`, and how much of `rest` belongs to it. -/
def classify (first : Char) (rest : Text) : Kind × Nat :=
  match single? first with
  | some kind => (kind, 0)
  | none =>
    if first = ',' then commaTail rest
    else if startsNumber first rest then (.number, numberTail first rest)
    else if first = '.' then pointTail rest
    else if first = '#' then hashTail rest
    else if CharClass.symbolStart.contains first then (.symbol, CharClass.symbol.run rest)
    else if first.isWhitespace then (.whitespace, CharClass.whitespace.run rest)
    else if first = ';' then (.lineComment, commentTail rest)
    else (.unknown, CharClass.unknown.run rest)

end SExpr.Lexeme
