import SExpr.Proofs.Stream.Drain
import SExpr.Proofs.Stream.Seam

/-!
# Where tokens stand

A token stands at an offset of a text if it is the longest lexeme there and has the place of that
offset. A cursor only moves on in its text and keeps the place of its offset, so what it scans
stands where it is. A stream keeps this for the token that was looked at, too.
-/
namespace SExpr

variable {source : Text} {o : Nat} {token : Token} {c : Cursor} {s s' s'' : TokenStream}
  {tokens tokens' : List Token}

/-- The token at an offset of a text: the longest lexeme there, with the place of the offset, or the
end of the input behind the last character. -/
inductive Token.StandsAt (source : Text) : Nat → Token → Prop
  | lexeme {o : Nat} {k : Kind} {t rest : Text} :
      source.drop o = t ++ rest → Lexeme.IsLongest k t rest →
      StandsAt source o ⟨k, t, .following (source.take o)⟩
  | endOfInput : StandsAt source source.length ⟨.endOfInput, [], .following source⟩

namespace Token.StandsAt

theorem position_eq (h : token.StandsAt source o) :
    token.position = .following (source.take o) := by
  cases h with
  | lexeme => rfl
  | endOfInput => rw [List.take_length]

theorem kind_eq_endOfInput_iff (h : token.StandsAt source o) :
    token.kind = .endOfInput ↔ o = source.length := by
  cases h with
  | @lexeme o k t rest hdrop hlong =>
    constructor
    · intro hk
      obtain rfl : k = .endOfInput := hk
      exact hlong.1.elim
    · intro ho
      obtain ⟨c, m, rfl⟩ := hlong.1.exists_cons
      rw [ho, List.drop_length] at hdrop
      cases hdrop
  | endOfInput => exact iff_of_true rfl rfl

theorem eq_of_end (h : token.StandsAt source o) (hend : token.kind = .endOfInput) :
    token = ⟨.endOfInput, [], .following source⟩ := by
  cases h with
  | @lexeme o k t rest hdrop hlong =>
    obtain rfl : k = .endOfInput := hend
    exact hlong.1.elim
  | endOfInput => rfl

end Token.StandsAt

/-! ## Cursors -/

namespace Cursor

/-- A cursor in a text: the text is around it, and its place is that of its offset. -/
structure StandsIn (source : Text) (c : Cursor) : Prop where
  source_eq : c.source = source
  position_eq : c.position = .following c.behind.reverse

theorem standsIn_ofText (source : Text) : (ofText source).StandsIn source :=
  ⟨rfl, rfl⟩

theorem offset_le_advance (c : Cursor) (n : Nat) : c.offset ≤ (c.advance n).offset := by
  simp [advance_eq, offset]

theorem StandsIn.advance (h : c.StandsIn source) (n : Nat) : (c.advance n).StandsIn source := by
  have hsource : c.behind.reverse ++ c.ahead = source := h.source_eq
  rw [advance_eq]
  constructor
  · simp [Cursor.source, hsource]
  · rw [h.position_eq, Position.afterText_following]
    simp

theorem StandsIn.behind_eq (h : c.StandsIn source) : c.behind.reverse = source.take c.offset := by
  simp [← h.source_eq, Cursor.source, offset]

theorem StandsIn.ahead_eq (h : c.StandsIn source) : c.ahead = source.drop c.offset := by
  simp [← h.source_eq, Cursor.source, offset]

theorem StandsIn.offset_le (h : c.StandsIn source) : c.offset ≤ source.length := by
  simp [← h.source_eq, Cursor.source, offset]

theorem scan_cases (c : Cursor) : c.ahead = [] ∧ c.scan = (⟨.endOfInput, [], c.position⟩, c) ∨
    ∃ k t rest, c.ahead = t ++ rest ∧ Lexeme.IsLongest k t rest ∧
      c.scan = (⟨k, t, c.position⟩, ⟨t.reverse ++ c.behind, rest, c.position.afterText t⟩) := by
  rcases hahead : c.ahead with _ | ⟨first, rest⟩
  · exact Or.inl ⟨rfl, scan_nil hahead⟩
  · have hlong := Lexeme.isLongest_classify first rest
    have hsplit : c.ahead = first :: rest.take (Lexeme.classify first rest).2 ++
        rest.drop (Lexeme.classify first rest).2 := by
      rw [hahead, List.cons_append, List.take_append_drop]
    exact Or.inr ⟨_, _, _, hahead ▸ hsplit, hlong, scan_append hsplit hlong⟩

theorem scan_snd (c : Cursor) : c.scan.2 = c.advance c.scan.1.text.length := by
  rcases c.scan_cases with ⟨hahead, hscan⟩ | ⟨k, t, rest, hahead, -, hscan⟩
  · rw [hscan]
    rfl
  · rw [hscan, advance_append hahead]

theorem text_append_scan (c : Cursor) : c.scan.1.text ++ c.scan.2.ahead = c.ahead := by
  rcases c.scan_cases with ⟨hahead, hscan⟩ | ⟨k, t, rest, hahead, -, hscan⟩
  · rw [hscan]
    rfl
  · rw [hscan, hahead]

theorem offset_scan (c : Cursor) : c.scan.2.offset = c.offset + c.scan.1.text.length := by
  rcases c.scan_cases with ⟨hahead, hscan⟩ | ⟨k, t, rest, hahead, -, hscan⟩
  · rw [hscan]
    rfl
  · rw [hscan]
    simp [offset, Nat.add_comm]

theorem StandsIn.scan (h : c.StandsIn source) : c.scan.2.StandsIn source := by
  rw [scan_snd]
  exact h.advance _

theorem StandsIn.standsAt_scan (h : c.StandsIn source) :
    c.scan.1.StandsAt source c.offset := by
  rcases c.scan_cases with ⟨hahead, hscan⟩ | ⟨k, t, rest, hahead, hlong, hscan⟩
  · have hsource : c.behind.reverse = source := by
      rw [← h.source_eq, Cursor.source, hahead, List.append_nil]
    have hoffset : c.offset = source.length := by
      rw [← hsource, List.length_reverse]
      rfl
    rw [hscan, hoffset, h.position_eq, hsource]
    exact .endOfInput
  · rw [hscan, h.position_eq, h.behind_eq]
    exact .lexeme (h.ahead_eq ▸ hahead) hlong

end Cursor

/-! ## Streams -/

namespace TokenStream

/-- A stream on a text: its cursor is in the text, and the token that was looked at stands behind
the cursor. -/
structure StandsIn (source : Text) (s : TokenStream) : Prop where
  cursor : s.cursor.StandsIn source
  buffer : ∀ token, s.buffer = some token →
    ∃ o, token.StandsAt source o ∧ o + token.text.length ≤ s.cursor.offset

theorem standsIn_ofText (source : Text) : (ofText source).StandsIn source :=
  ⟨Cursor.standsIn_ofText source, by simp [ofText]⟩

theorem pop_snd (s : TokenStream) : s.pop.2 = ⟨s.peek.2.cursor, none⟩ := by
  obtain ⟨cursor, _ | token⟩ := s <;> rfl

@[simp] theorem cursor_pop (s : TokenStream) : s.pop.2.cursor = s.peek.2.cursor := by
  rw [pop_snd]

@[simp] theorem buffer_pop (s : TokenStream) : s.pop.2.buffer = none := by
  rw [pop_snd]

@[simp] theorem buffer_peek (s : TokenStream) : s.peek.2.buffer = some s.peek.1 := by
  obtain ⟨cursor, _ | token⟩ := s <;> rfl

theorem StandsIn.peek (h : s.StandsIn source) : s.peek.2.StandsIn source := by
  obtain ⟨cursor, _ | token⟩ := s
  · refine ⟨h.cursor.scan, fun token htoken => ?_⟩
    obtain rfl : cursor.scan.1 = token := Option.some.inj htoken
    exact ⟨_, h.cursor.standsAt_scan, (cursor.offset_scan).ge⟩
  · exact h

theorem StandsIn.pop (h : s.StandsIn source) : s.pop.2.StandsIn source := by
  refine ⟨?_, by simp⟩
  rw [cursor_pop]
  exact h.peek.cursor

theorem StandsIn.ahead_of_end (h : s.StandsIn source) (hend : s.peek.1.kind = .endOfInput) :
    s.peek.2.cursor.ahead = [] := by
  obtain ⟨o, ho, hle⟩ := h.peek.buffer _ s.buffer_peek
  have hlength := ho.kind_eq_endOfInput_iff.mp hend
  rw [h.peek.cursor.ahead_eq, List.drop_eq_nil_iff]
  omega

theorem StandsIn.peek_of_end (h : s.StandsIn source) (hend : s.peek.1.kind = .endOfInput) :
    s.peek.1 = ⟨.endOfInput, [], .following source⟩ := by
  obtain ⟨o, ho, -⟩ := h.peek.buffer _ s.buffer_peek
  exact ho.eq_of_end hend

theorem StandsIn.pop_of_end (h : s.StandsIn source) (hend : s.peek.1.kind = .endOfInput) :
    s.pop.2.peek.1 = s.peek.1 := by
  have hnext : s.pop.2.peek.1.kind = .endOfInput := by
    have hpeek : s.pop.2.peek.1 = s.peek.2.cursor.scan.1 := by
      rw [pop_snd]
      rfl
    rw [hpeek, Cursor.scan_nil (h.ahead_of_end hend)]
  rw [h.pop.peek_of_end hnext, h.peek_of_end hend]

theorem StandsIn.drain_pop_of_end (h : s.StandsIn source) (hend : s.peek.1.kind = .endOfInput) :
    s.pop.2.drain.1 = [] := by
  rw [drain_of_end]
  rwa [h.pop_of_end hend]

/-! ## Tokens in a row -/

end TokenStream

/-- Tokens that stand one behind the other in a text, between two offsets. -/
inductive Token.Row (source : Text) : Nat → List Token → Nat → Prop
  | nil (o : Nat) : Row source o [] o
  | cons {o o' : Nat} {token : Token} {tokens : List Token} : token.StandsAt source o →
      Row source (o + token.text.length) tokens o' → Row source o (token :: tokens) o'

namespace Token.Row

variable {o' o'' : Nat}

theorem append (h : Row source o tokens o') (h' : Row source o' tokens' o'') :
    Row source o (tokens ++ tokens') o'' := by
  induction h with
  | nil => exact h'
  | cons hat _ ih => exact .cons hat (ih h')

theorem offset_le (h : Row source o tokens o') : o ≤ o' := by
  induction h with
  | nil => exact Nat.le_refl _
  | cons _ _ ih => exact (Nat.le_add_right _ _).trans ih

theorem eq_of_nil (h : Row source o [] o') : o' = o := by
  cases h
  rfl

theorem exists_standsAt (h : Row source o tokens o') (hmem : token ∈ tokens) :
    ∃ m, token.StandsAt source m := by
  induction h with
  | nil => cases hmem
  | cons hat _ ih =>
    rcases List.mem_cons.mp hmem with rfl | hmem
    · exact ⟨_, hat⟩
    · exact ih hmem

theorem exists_last (h : Row source o (tokens ++ [token]) o') :
    ∃ m, token.StandsAt source m ∧ o' = m + token.text.length := by
  induction tokens generalizing o with
  | nil =>
    cases h with
    | cons hat hrest =>
      cases hrest
      exact ⟨o, hat, rfl⟩
  | cons first tokens ih =>
    cases h with
    | cons _ hrest => exact ih hrest

end Token.Row

namespace TokenStream

/-- Tokens leave a stream in the order of the text: the one that was looked at is the first, and the
others stand in a row from the cursor on. The last one may be looked at and stay. -/
def Yields (source : Text) (s : TokenStream) (tokens : List Token) (s' : TokenStream) : Prop :=
  ∃ scanned, Token.Row source s.cursor.offset scanned s'.cursor.offset ∧
    tokens ++ s'.buffer.toList = s.buffer.toList ++ scanned

theorem Yields.refl (s : TokenStream) : s.Yields source [] s :=
  ⟨[], .nil _, by simp⟩

theorem Yields.trans (h : s.Yields source tokens s') (h' : s'.Yields source tokens' s'') :
    s.Yields source (tokens ++ tokens') s'' := by
  obtain ⟨scanned, hrow, heq⟩ := h
  obtain ⟨scanned', hrow', heq'⟩ := h'
  refine ⟨scanned ++ scanned', hrow.append hrow', ?_⟩
  rw [List.append_assoc, heq', ← List.append_assoc, heq, List.append_assoc]

theorem StandsIn.yields_peek (h : s.StandsIn source) : s.Yields source [] s.peek.2 := by
  obtain ⟨cursor, _ | token⟩ := s
  · refine ⟨[cursor.scan.1], .cons h.cursor.standsAt_scan ?_, rfl⟩
    rw [← cursor.offset_scan]
    exact .nil _
  · exact .refl _

/-- What is taken out of a stream leaves it, the end of the input like any token. -/
theorem StandsIn.yields_pop (h : s.StandsIn source) : s.Yields source [s.peek.1] s.pop.2 := by
  obtain ⟨scanned, hrow, heq⟩ := h.yields_peek
  rw [buffer_peek] at heq
  refine ⟨scanned, ?_, ?_⟩
  · rwa [cursor_pop]
  · rw [buffer_pop, ← heq]
    rfl

theorem Takes.standsIn (h : Takes s tokens s') (hs : s.StandsIn source) : s'.StandsIn source := by
  induction h with
  | refl => exact hs
  | look => exact hs.peek
  | take _ _ ih => exact ih hs.pop

theorem Takes.yields (h : Takes s tokens s') (hs : s.StandsIn source) :
    s.Yields source tokens s' := by
  induction h with
  | refl s => exact .refl s
  | look => exact hs.yields_peek
  | take _ _ ih => exact hs.yields_pop.trans (ih hs.pop)

end TokenStream

end SExpr
