import SExpr.Text.Basic

/-!
# Kinds of lexemes and classes of characters

Every piece of a source text is of one kind. Delimiters carry their bracket family, and the
punctuation that abbreviates a two-element list carries which list it abbreviates.

Five classes of characters tell where a lexeme starts and how far it runs. Only ASCII letters and
digits count as letters and digits; a run of unknown characters takes in everything else.
-/
namespace SExpr

/-- The two families of brackets. -/
inductive Bracket
  | round
  | square
  deriving DecidableEq, Repr

namespace Bracket

def closer : Bracket → Char
  | round => ')'
  | square => ']'

end Bracket

/-- Punctuation before a datum that stands for a list of a symbol and that datum. -/
inductive Abbreviation
  | quote
  | quasiquote
  | unquote
  | unquoteSplicing
  deriving DecidableEq, Repr

namespace Abbreviation

def symbol : Abbreviation → Text
  | quote => "quote".toList
  | quasiquote => "quasiquote".toList
  | unquote => "unquote".toList
  | unquoteSplicing => "unquote-splicing".toList

end Abbreviation

/-- What a lexeme is. `endOfInput` is the kind of the empty lexeme after the last one. -/
inductive Kind
  | opener (b : Bracket)
  | closer (b : Bracket)
  | dot
  | ellipsis
  | abbreviation (a : Abbreviation)
  | number
  | boolean
  | symbol
  | whitespace
  | lineComment
  | unknown
  | endOfInput
  deriving DecidableEq, Repr

namespace Kind

def all : List Kind := [
  opener .round, closer .round, opener .square, closer .square, dot, ellipsis,
  abbreviation .quote, abbreviation .quasiquote, abbreviation .unquote,
  abbreviation .unquoteSplicing, number, boolean, symbol, whitespace, lineComment, unknown,
  endOfInput]

def label : Kind → Text
  | opener .round => "LPAREN".toList
  | closer .round => "RPAREN".toList
  | opener .square => "LBRACKET".toList
  | closer .square => "RBRACKET".toList
  | dot => "DOT".toList
  | ellipsis => "ELLIPSIS".toList
  | abbreviation .quote => "QUOTE".toList
  | abbreviation .quasiquote => "BACKTICK".toList
  | abbreviation .unquote => "COMMA".toList
  | abbreviation .unquoteSplicing => "COMMA_AT".toList
  | number => "NUMBER".toList
  | boolean => "BOOLEAN".toList
  | symbol => "SYMBOL".toList
  | whitespace => "WHITESPACE".toList
  | lineComment => "LINE_COMMENT".toList
  | unknown => "UNKNOWN".toList
  | endOfInput => "EOF".toList

def ofLabel? (t : Text) : Option Kind :=
  all.find? (·.label = t)

/-- Whitespace and comments separate lexemes and mean nothing. -/
def isBlank : Kind → Bool
  | whitespace | lineComment => true
  | _ => false

theorem mem_all (k : Kind) : k ∈ all := by
  rcases k with (_ | _) | (_ | _) | _ | _ | (_ | _ | _ | _) <;> decide

theorem ofLabel?_label (k : Kind) : ofLabel? k.label = some k := by
  rcases k with (_ | _) | (_ | _) | _ | _ | (_ | _ | _ | _) <;> decide

end Kind

/-! ## Classes of characters -/

/-- A class of characters. -/
inductive CharClass
  | digit
  | symbolStart
  | symbol
  | whitespace
  | unknown
  deriving DecidableEq, Repr

namespace CharClass

def symbolPunctuation : Text :=
  "!$%^&*-_=+:<>/?".toList

def unknownEnders : Text :=
  "()[];".toList

def contains : CharClass → Char → Bool
  | digit, c => c.isDigit
  | symbolStart, c => c.isAlpha || symbolPunctuation.contains c
  | symbol, c => c.isAlpha || symbolPunctuation.contains c || c.isDigit
  | whitespace, c => c.isWhitespace
  | unknown, c => !unknownEnders.contains c && !c.isWhitespace

def run (k : CharClass) (t : Text) : Nat :=
  (t.takeWhile k.contains).length

end CharClass

end SExpr
