import SExpr.Lexeme.Kind

/-!
# The languages of lexemes

For every kind the texts that are lexemes of it, said without a scanner. A text is cut into lexemes
by taking the longest one at its front again and again.
-/
namespace SExpr.Lexeme

def IsRun (k : CharClass) (t : Text) : Prop :=
  t ≠ [] ∧ ∀ c ∈ t, k.contains c = true

/-- Digits with an optional point after or among them, or a point before digits. -/
def IsUnsigned (t : Text) : Prop :=
  IsRun .digit t ∨
    (∃ whole fraction, IsRun .digit whole ∧ (fraction = [] ∨ IsRun .digit fraction) ∧
      t = whole ++ '.' :: fraction) ∨
    ∃ fraction, IsRun .digit fraction ∧ t = '.' :: fraction

/-- A number with an optional minus sign and no exponent. -/
def IsNumeral (t : Text) : Prop :=
  IsUnsigned t ∨ ∃ u, IsUnsigned u ∧ t = '-' :: u

/-- A minus sign before a digit begins a number and not a symbol. -/
def IsSymbolName (t : Text) : Prop :=
  (∃ c rest, t = c :: rest ∧ CharClass.symbolStart.contains c = true ∧
    ∀ d ∈ rest, CharClass.symbol.contains d = true) ∧
    ¬ ∃ d rest, t = '-' :: d :: rest ∧ CharClass.digit.contains d = true

/-- Three points, or two points before digits. -/
def IsEllipsis (t : Text) : Prop :=
  t = "...".toList ∨ ∃ digits, IsRun .digit digits ∧ t = '.' :: '.' :: digits

def IsComment (t : Text) : Prop :=
  ∃ rest, t = ';' :: rest ∧ ∀ c ∈ rest, c ≠ '\r' ∧ c ≠ '\n'

def IsKnown : Kind → Text → Prop
  | .opener .round, t => t = ['(']
  | .opener .square, t => t = ['[']
  | .closer .round, t => t = [')']
  | .closer .square, t => t = [']']
  | .dot, t => t = ['.']
  | .ellipsis, t => IsEllipsis t
  | .abbreviation .quote, t => t = ['\'']
  | .abbreviation .quasiquote, t => t = ['`']
  | .abbreviation .unquote, t => t = [',']
  | .abbreviation .unquoteSplicing, t => t = [',', '@']
  | .number, t => IsNumeral t
  | .boolean, t => t = ['#', 't'] ∨ t = ['#', 'f']
  | .symbol, t => IsSymbolName t
  | .whitespace, t => IsRun .whitespace t
  | .lineComment, t => IsComment t
  | .unknown, _ => False
  | .endOfInput, _ => False

/-- A run of unknown characters that starts with a hash sign, but not as a boolean does, or with a
character that starts no other lexeme. -/
def IsUnknown (t : Text) : Prop :=
  IsRun .unknown t ∧
    ((∃ rest, t = '#' :: rest ∧ rest.head? ≠ some 't' ∧ rest.head? ≠ some 'f') ∨
      ∃ c rest, t = c :: rest ∧ ∀ k more, ¬ IsKnown k (c :: more))

def Is : Kind → Text → Prop
  | .unknown, t => IsUnknown t
  | k, t => IsKnown k t

/-- `lexemes` are the kinds and texts that come of cutting off the longest lexeme of any kind at the
front until nothing is left. -/
inductive Cut : Text → List (Kind × Text) → Prop
  | nil : Cut [] []
  | cons {k t rest lexemes} : Is k t →
      (∀ k' t', Is k' t' → t' <+: t ++ rest → t'.length ≤ t.length) →
      Cut rest lexemes → Cut (t ++ rest) ((k, t) :: lexemes)

end SExpr.Lexeme
