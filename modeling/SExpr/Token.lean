import SExpr.Lexeme.Kind
import SExpr.Text.Quoted

/-!
# Positions and tokens

A position is a line and a column, both counted from one. A line feed ends a line; a carriage
return is a column like any other character. A token is a lexeme with its place. The place is for
messages only: two tokens are the same if their kinds and texts are.
-/
namespace SExpr

/-- A place in a source text. Both numbers are zero where no place is known. -/
structure Position where
  line : Nat := 0
  column : Nat := 0
  deriving DecidableEq, Repr

namespace Position

def start : Position := ⟨1, 1⟩

def after (p : Position) (c : Char) : Position :=
  if c = '\n' then ⟨p.line + 1, 1⟩ else ⟨p.line, p.column + 1⟩

/-- The place after a text: a line further for each of its line feeds, and in that line a column
further for each character since the last of them. -/
def following (before : Text) : Position :=
  ⟨1 + before.count '\n', 1 + (before.reverse.takeWhile (· ≠ '\n')).length⟩

def render (p : Position) : Text :=
  Text.ofNat p.line ++ ':' :: Text.ofNat p.column

end Position

/-- A kind, the exact text it covers, and where that text starts. -/
structure Token where
  kind : Kind
  text : Text
  position : Position := {}
  deriving DecidableEq, Repr

namespace Token

/-- Equality up to place. -/
def same (a b : Token) : Bool :=
  a.kind = b.kind && a.text = b.text

def describe (t : Token) : Text :=
  if t.kind = .endOfInput then "end of input".toList else '"' :: t.text ++ ['"']

def debug (t : Token) : Text :=
  "Token(".toList ++ t.kind.label ++ ", ".toList ++ t.text.quoted ++ ", ".toList ++
    t.position.render ++ [')']

/-- The line of a token in a listing: place, kind and quoted text between tabs. -/
def listing (t : Token) : Text :=
  t.position.render ++ '\t' :: t.kind.label ++ '\t' :: t.text.quoted

end Token

end SExpr
