import SExpr.TokenStream

/-!
# Draining a token stream

A stream holds the tokens that draining it takes, and behind them the token for the end of the
input. Looking changes nothing about them, and taking a token takes the first of them, so whoever
takes tokens from a stream one by one takes a prefix of what draining takes.
-/
namespace SExpr.TokenStream

def last (s : TokenStream) : Token :=
  s.drain.2.peek.1

theorem drain_of_end {s : TokenStream} (h : s.peek.1.kind = .endOfInput) :
    s.drain = ([], s.peek.2) := by
  rw [drain]
  simp [← s.peek_fst, h]

theorem drain_of_more {s : TokenStream} (h : s.peek.1.kind ≠ .endOfInput) :
    s.drain = (s.peek.1 :: s.pop.2.drain.1, s.pop.2.drain.2) := by
  rw [drain]
  simp [← s.peek_fst, h]

@[simp] theorem peek_peek (s : TokenStream) : s.peek.2.peek = s.peek := by
  obtain ⟨cursor, _ | token⟩ := s <;> rfl

@[simp] theorem pop_peek_snd (s : TokenStream) : s.peek.2.pop.2 = s.pop.2 := by
  rw [s.pop_peek]

@[simp] theorem drain_peek (s : TokenStream) : s.peek.2.drain = s.drain := by
  by_cases h : s.peek.1.kind = .endOfInput
  · rw [drain_of_end h, drain_of_end (by rwa [peek_peek]), peek_peek]
  · rw [drain_of_more h, drain_of_more (by rwa [peek_peek]), peek_peek, pop_peek_snd]

theorem last_of_end {s : TokenStream} (h : s.peek.1.kind = .endOfInput) : s.last = s.peek.1 := by
  rw [last, drain_of_end h, peek_peek]

theorem last_of_more {s : TokenStream} (h : s.peek.1.kind ≠ .endOfInput) :
    s.pop.2.last = s.last := by
  rw [last, last, drain_of_more h]

/-! ## Taking tokens one by one -/

/-- Tokens are taken from a stream one after the other, none of them the end of the input, and the
next token may be looked at afterwards. -/
inductive Takes : TokenStream → List Token → TokenStream → Prop
  | refl (s : TokenStream) : Takes s [] s
  | look (s : TokenStream) : Takes s [] s.peek.2
  | take {s s' : TokenStream} {tokens : List Token} : s.peek.1.kind ≠ .endOfInput →
      Takes s.pop.2 tokens s' → Takes s (s.peek.1 :: tokens) s'

variable {s s' s'' : TokenStream} {tokens tokens' : List Token}

theorem Takes.of_peek (h : Takes s.peek.2 tokens s') : Takes s tokens s' := by
  cases h with
  | refl => exact .look s
  | look =>
    rw [peek_peek]
    exact .look s
  | take hmore hrest =>
    rw [peek_peek] at hmore ⊢
    rw [pop_peek_snd] at hrest
    exact .take hmore hrest

theorem Takes.trans (h : Takes s tokens s') (h' : Takes s' tokens' s'') :
    Takes s (tokens ++ tokens') s'' := by
  induction h with
  | refl => exact h'
  | look => exact h'.of_peek
  | take hmore _ ih => exact .take hmore (ih h')

theorem takes_pop (h : s.peek.1.kind ≠ .endOfInput) : Takes s [s.peek.1] s.pop.2 :=
  .take h (.refl _)

theorem Takes.drain_eq (h : Takes s tokens s') : s.drain.1 = tokens ++ s'.drain.1 := by
  induction h with
  | refl => rfl
  | look s => rw [drain_peek, List.nil_append]
  | take hmore _ ih => rw [drain_of_more hmore, ih, List.cons_append]

theorem Takes.kind_ne (h : Takes s tokens s') : ∀ token ∈ tokens, token.kind ≠ .endOfInput := by
  induction h with
  | refl => simp
  | look => simp
  | take hmore _ ih => exact List.forall_mem_cons.mpr ⟨hmore, ih⟩

theorem Takes.last_eq (h : Takes s tokens s') : s'.last = s.last := by
  induction h with
  | refl => rfl
  | look s => rw [last, last, drain_peek]
  | take hmore _ ih => rw [ih, last_of_more hmore]

theorem takes_drain (s : TokenStream) : Takes s s.drain.1 s.drain.2 := by
  by_cases h : s.peek.1.kind = .endOfInput
  · rw [drain_of_end h]
    exact .look s
  · rw [drain_of_more h]
    exact .take h s.pop.2.takes_drain
termination_by s.remaining
decreasing_by exact remaining_pop_lt (s.peek_fst ▸ h)

theorem kind_peek_drain (s : TokenStream) : s.drain.2.peek.1.kind = .endOfInput := by
  by_cases h : s.peek.1.kind = .endOfInput
  · rw [drain_of_end h]
    rwa [peek_peek]
  · rw [drain_of_more h]
    exact s.pop.2.kind_peek_drain
termination_by s.remaining
decreasing_by exact remaining_pop_lt (s.peek_fst ▸ h)

theorem peek_eq_head (s : TokenStream) : s.peek.1 = s.drain.1.head?.getD s.last := by
  by_cases h : s.peek.1.kind = .endOfInput
  · rw [drain_of_end h, last_of_end h]
    rfl
  · rw [drain_of_more h]
    rfl

end SExpr.TokenStream
