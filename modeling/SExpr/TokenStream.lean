import SExpr.Lexeme.Classify
import SExpr.Token

/-!
# Cursors and token streams

A cursor stands between two characters of a source text. It keeps the text behind it and the text
ahead, so that no character is ever lost, and the position of the first character ahead.

A token stream is a cursor with room for one token of lookahead. Tokens are scanned when they are
asked for, and looking at a token does not take it. The stream measures how much is left in it, and
taking any token but the end of the input leaves less.
-/
namespace SExpr

/-! ## Cursors -/

/-- A place inside a text. The characters behind are in reverse order. -/
structure Cursor where
  behind : Text
  ahead : Text
  position : Position
  deriving DecidableEq, Repr

namespace Cursor

def ofText (source : Text) : Cursor :=
  ⟨[], source, .start⟩

def source (c : Cursor) : Text :=
  c.behind.reverse ++ c.ahead

def offset (c : Cursor) : Nat :=
  c.behind.length

/-- Moves over `n` characters, or over all that are ahead if they are fewer. -/
def advance (c : Cursor) : Nat → Cursor
  | 0 => c
  | n + 1 =>
    match c with
    | ⟨_, [], _⟩ => c
    | ⟨behind, next :: ahead, position⟩ =>
      advance ⟨next :: behind, ahead, position.after next⟩ n

def skipClass (c : Cursor) (k : CharClass) : Cursor :=
  c.advance (k.run c.ahead)

/-- The token ahead, and the cursor behind it. -/
def scan (c : Cursor) : Token × Cursor :=
  match c.ahead with
  | [] => (⟨.endOfInput, [], c.position⟩, c)
  | first :: rest =>
    let (kind, more) := Lexeme.classify first rest
    (⟨kind, first :: rest.take more, c.position⟩, c.advance (more + 1))

theorem length_ahead_advance (c : Cursor) (n : Nat) :
    (c.advance n).ahead.length = c.ahead.length - n := by
  induction n generalizing c with
  | zero => rfl
  | succ n ih =>
    obtain ⟨behind, ahead, position⟩ := c
    cases ahead with
    | nil => simp [advance]
    | cons next ahead => simp [advance, ih, Nat.add_sub_add_right]

theorem length_ahead_scan_lt {c : Cursor} (h : c.scan.1.kind ≠ .endOfInput) :
    c.scan.2.ahead.length < c.ahead.length := by
  unfold scan at h ⊢
  split at h
  · exact absurd rfl h
  · rename_i first rest hc
    simp only [length_ahead_advance, hc, List.length_cons]
    omega

theorem length_ahead_scan_le (c : Cursor) : c.scan.2.ahead.length ≤ c.ahead.length := by
  unfold scan
  split
  · exact Nat.le_refl _
  · simp [length_ahead_advance]

end Cursor

/-! ## Streams -/

/-- A cursor, and the token that was looked at and not yet taken. -/
structure TokenStream where
  cursor : Cursor
  buffer : Option Token := none
  deriving DecidableEq, Repr

namespace TokenStream

def ofText (source : Text) : TokenStream :=
  { cursor := .ofText source }

/-- The next token, which stays in the stream. -/
def peek (s : TokenStream) : Token × TokenStream :=
  match s.buffer with
  | some token => (token, s)
  | none => (s.cursor.scan.1, ⟨s.cursor.scan.2, some s.cursor.scan.1⟩)

/-- The next token, taken out of the stream. -/
def pop (s : TokenStream) : Token × TokenStream :=
  match s.buffer with
  | some token => (token, ⟨s.cursor, none⟩)
  | none => (s.cursor.scan.1, ⟨s.cursor.scan.2, none⟩)

/-- A bound on the tokens left before the end of the input. -/
def remaining (s : TokenStream) : Nat :=
  s.cursor.ahead.length +
    match s.buffer with
    | some token => if token.kind = .endOfInput then 0 else 1
    | none => 0

theorem remaining_pop_lt {s : TokenStream} (h : s.pop.1.kind ≠ .endOfInput) :
    s.pop.2.remaining < s.remaining := by
  obtain ⟨cursor, _ | token⟩ := s
  · exact Cursor.length_ahead_scan_lt h
  · have h : token.kind ≠ .endOfInput := h
    simp [pop, remaining, h]

theorem pop_peek (s : TokenStream) : s.peek.2.pop = (s.peek.1, s.pop.2) := by
  obtain ⟨cursor, _ | token⟩ := s <;> rfl

theorem peek_fst (s : TokenStream) : s.peek.1 = s.pop.1 := by
  obtain ⟨cursor, _ | token⟩ := s <;> rfl

/-- All tokens before the end of the input, which is then looked at. -/
def drain (s : TokenStream) : List Token × TokenStream :=
  let next := s.pop
  if _h : next.1.kind = .endOfInput then ([], s.peek.2)
  else
    let rest := next.2.drain
    (next.1 :: rest.1, rest.2)
termination_by s.remaining
decreasing_by exact remaining_pop_lt _h

end TokenStream

/-- Tokens without whitespace and comments. Unknown text is kept. -/
def withoutBlanks (tokens : List Token) : List Token :=
  tokens.filter (!·.kind.isBlank)

def TokenStream.listTokens (withBlanks : Bool) (s : TokenStream) : List Token × TokenStream :=
  let drained := s.drain
  (if withBlanks then drained.1 else withoutBlanks drained.1, drained.2)

def tokenize (source : Text) (withBlanks : Bool := true) : List Token :=
  ((TokenStream.ofText source).listTokens withBlanks).1

end SExpr
