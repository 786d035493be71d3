import SExpr.Operation
import SExpr.Proofs.Stream.Standing

/-!
# Lookahead

Looking at tokens, taking them and draining the stream give the tokens of the text in order, each of
them once, and then the end of the input again and again. What comes next depends on nothing but
how many tokens were taken, so no look changes anything.
-/
namespace SExpr

/-- The uses of a stream that look at tokens or take them. -/
inductive Access
  | peek
  | pop
  | drain (withBlanks : Bool)
  deriving DecidableEq, Repr

namespace Access

def operation : Access → Operation
  | peek => .peek
  | pop => .pop
  | drain withBlanks => .drain withBlanks

/-- The tokens that an access takes out of a stream, whether its answer keeps them or not. -/
def taken (s : TokenStream) : Access → List Token
  | peek => []
  | pop => [s.pop.1]
  | drain _ => s.drain.1

end Access

namespace TokenStream

def takenBy (filename : Text) (s : TokenStream) : List Access → List Token
  | [] => []
  | access :: accesses =>
    access.taken s ++ (s.perform filename access.operation).2.takenBy filename accesses

/-- The text of the token that was looked at, and the text ahead of the cursor. -/
def unread (s : TokenStream) : Text :=
  s.buffer.elim [] Token.text ++ s.cursor.ahead

variable {source filename : Text} {s s' : TokenStream} {tokens : List Token}

theorem unread_peek (s : TokenStream) : s.peek.2.unread = s.unread := by
  obtain ⟨cursor, _ | token⟩ := s
  · exact cursor.text_append_scan
  · rfl

theorem text_append_pop (s : TokenStream) : s.peek.1.text ++ s.pop.2.unread = s.unread := by
  obtain ⟨cursor, _ | token⟩ := s
  · exact cursor.text_append_scan
  · rfl

theorem Takes.texts_append (h : Takes s tokens s') :
    tokens.flatMap Token.text ++ s'.unread = s.unread := by
  induction h with
  | refl => rfl
  | look s => exact s.unread_peek
  | @take s s' tokens _ _ ih =>
    rw [List.flatMap_cons, List.append_assoc, ih, text_append_pop]

theorem last_ofText (source : Text) :
    (ofText source).last = ⟨.endOfInput, [], .following source⟩ := by
  have hstands := (takes_drain (ofText source)).standsIn (standsIn_ofText source)
  exact hstands.peek_of_end (kind_peek_drain _)

theorem drain_ofText (source : Text) : (ofText source).drain.1 = tokenize source := rfl

theorem withoutBlanks_eq (tokens : List Token) : withoutBlanks tokens =
    tokens.filter fun token => token.kind ≠ .whitespace ∧ token.kind ≠ .lineComment := by
  refine List.filter_congr fun token _ => ?_
  cases token.kind <;> simp [Kind.isBlank]

/-! ## One access -/

theorem StandsIn.access (h : s.StandsIn source) (access : Access) :
    (s.perform filename access.operation).2.StandsIn source := by
  cases access with
  | peek => exact h.peek
  | pop => exact h.pop
  | drain withBlanks => exact s.takes_drain.standsIn h

theorem StandsIn.taken_append (h : s.StandsIn source) (filename : Text) (access : Access) : ∃ n,
    access.taken s ++ (s.perform filename access.operation).2.drain.1 =
      s.drain.1 ++ List.replicate n s.last := by
  cases access with
  | peek => exact ⟨0, by simp [Access.taken, Access.operation, perform]⟩
  | pop =>
    by_cases hend : s.peek.1.kind = .endOfInput
    · refine ⟨1, ?_⟩
      rw [drain_of_end hend, last_of_end hend]
      simp [Access.taken, Access.operation, perform, h.drain_pop_of_end hend, s.peek_fst]
    · refine ⟨0, ?_⟩
      rw [drain_of_more hend]
      simp [Access.taken, Access.operation, perform, s.peek_fst]
  | drain withBlanks =>
    refine ⟨0, ?_⟩
    have hrest : s.drain.2.drain.1 = [] := by rw [drain_of_end s.kind_peek_drain]
    simp [Access.taken, Access.operation, perform, listTokens, hrest]

theorem StandsIn.last_access (h : s.StandsIn source) (access : Access) :
    (s.perform filename access.operation).2.last = s.last := by
  cases access with
  | peek => exact (Takes.look s).last_eq
  | pop =>
    by_cases hend : s.peek.1.kind = .endOfInput
    · have hnext := h.pop_of_end hend
      have hend' : s.pop.2.peek.1.kind = .endOfInput := by rwa [hnext]
      exact (last_of_end hend').trans (hnext.trans (last_of_end hend).symm)
    · exact last_of_more hend
  | drain withBlanks => exact s.takes_drain.last_eq

theorem texts_access (s : TokenStream) (access : Access) :
    (access.taken s).flatMap Token.text ++ (s.perform filename access.operation).2.unread =
      s.unread := by
  cases access with
  | peek => exact s.unread_peek
  | pop =>
    rw [Access.taken, ← s.peek_fst, List.flatMap_singleton]
    exact s.text_append_pop
  | drain withBlanks => exact s.takes_drain.texts_append

/-! ## Any accesses -/

theorem StandsIn.takenBy_append (h : s.StandsIn source) (filename : Text)
    (accesses : List Access) : ∃ n, s.takenBy filename accesses ++
      (s.after filename (accesses.map Access.operation)).drain.1 =
        s.drain.1 ++ List.replicate n s.last := by
  induction accesses generalizing s with
  | nil => exact ⟨0, by simp [takenBy, after]⟩
  | cons access accesses ih =>
    obtain ⟨m, hm⟩ := h.taken_append filename access
    obtain ⟨n, hn⟩ := ih (h.access access)
    refine ⟨m + n, ?_⟩
    rw [h.last_access access] at hn
    rw [takenBy, List.append_assoc, List.map_cons, after, hn, ← List.append_assoc, hm,
      List.append_assoc, List.replicate_append_replicate]

theorem StandsIn.last_after (h : s.StandsIn source) (accesses : List Access) :
    (s.after filename (accesses.map Access.operation)).last = s.last := by
  induction accesses generalizing s with
  | nil => rfl
  | cons access accesses ih => exact (ih (h.access access)).trans (h.last_access access)

/-- Of what is left after tokens of a list and perhaps ends of the input, only tokens of the list
remain. -/
theorem drain_eq_drop {taken : List Token} {last : Token} {n : Nat}
    (h : taken ++ s.drain.1 = tokens ++ List.replicate n last) (hlast : last.kind = .endOfInput) :
    s.drain.1 = tokens.drop taken.length := by
  have hdrop := congrArg (List.drop taken.length) h
  rw [List.drop_left, List.drop_append] at hdrop
  have hnone : (List.replicate n last).drop (taken.length - tokens.length) = [] := by
    rw [List.eq_nil_iff_forall_not_mem]
    intro token htoken
    have hmem : token ∈ s.drain.1 := hdrop ▸ List.mem_append_right _ htoken
    rw [List.drop_replicate] at htoken
    rw [List.eq_of_mem_replicate htoken] at hmem
    exact s.takes_drain.kind_ne last hmem hlast
  rw [hdrop, hnone, List.append_nil]

theorem texts_takenBy (s : TokenStream) (accesses : List Access) :
    (s.takenBy filename accesses).flatMap Token.text ++
      (s.after filename (accesses.map Access.operation)).unread = s.unread := by
  induction accesses generalizing s with
  | nil => rfl
  | cons access accesses ih =>
    rw [takenBy, List.flatMap_append, List.append_assoc, List.map_cons, after, ih, texts_access]

/-- After any accesses, the tokens taken are the first ones of the text, and then ends of the input.
What the next access brings depends on their number only: a look and a taking bring the token that
comes next, however often it was looked at, and draining brings the tokens that are left. The texts
of the tokens taken and the text that is unread make up the source. -/
theorem lookahead_invisible (source filename : Text) (accesses : List Access) :
    let s := (ofText source).after filename (accesses.map Access.operation)
    let taken := (ofText source).takenBy filename accesses
    let next := (tokenize source)[taken.length]?.getD ⟨.endOfInput, [], .following source⟩
    let left := (tokenize source).drop taken.length
    (∃ n, taken <+: tokenize source ++ List.replicate n ⟨.endOfInput, [], .following source⟩) ∧
      (s.perform filename .peek).1 = .ok (.token next) ∧
      (s.perform filename .pop).1 = .ok (.token next) ∧
      (s.perform filename .peek).2.perform filename .peek = s.perform filename .peek ∧
      (s.perform filename .peek).2.perform filename .pop = s.perform filename .pop ∧
      (s.perform filename (.drain true)).1 = .ok (.tokens left) ∧
      (s.perform filename (.drain false)).1 = .ok (.tokens
        (left.filter fun token => token.kind ≠ .whitespace ∧ token.kind ≠ .lineComment)) ∧
      taken.flatMap Token.text ++ s.unread = source := by
  intro s taken next left
  have hstands := standsIn_ofText source
  obtain ⟨n, hn⟩ := hstands.takenBy_append filename accesses
  have hlast : s.last = ⟨.endOfInput, [], .following source⟩ :=
    (hstands.last_after accesses).trans (last_ofText source)
  rw [last_ofText, drain_ofText] at hn
  have hleft : s.drain.1 = left := drain_eq_drop hn rfl
  have hpeek : s.peek.1 = next := by
    rw [s.peek_eq_head, hleft, hlast, List.head?_drop]
  have hpop : s.pop.1 = next := s.peek_fst ▸ hpeek
  refine ⟨⟨n, s.drain.1, hn⟩, ?_, ?_, ?_, ?_, ?_, ?_, ?_⟩
  · rw [perform, hpeek]
  · rw [perform, hpop]
  · rw [perform, perform, peek_peek]
  · rw [perform, perform, perform, s.pop_peek, s.peek_fst]
  · rw [perform, listTokens, hleft]
    rfl
  · rw [perform, listTokens, hleft, ← withoutBlanks_eq]
    rfl
  · exact texts_takenBy _ accesses

end TokenStream

end SExpr
