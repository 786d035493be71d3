import SExpr.Operation
import SExpr.Proofs.Reading.Outcome
import SExpr.Proofs.Stream.Standing

/-!
# Places

No operation moves a cursor back, and all of them keep its place true. The tokens that an operation
looks at, gives or complains of are the one that was looked at before and those that stand in a row
from the cursor on, so they have the places at which their texts start.
-/
namespace SExpr

variable {source filename : Text} {s s' : TokenStream} {tokens tokens' : List Token}
  {token : Token} {r : Except ReadError Answer} {e : ReadError} {g g' : Progress} {d : Datum}
  {p : Pending}

def Answer.given : Answer → List Token
  | .token t => [t]
  | .tokens ts => ts
  | _ => []

/-- The errors that a token can be: at its place, because its text is unknown or because it was
found where something else is expected. -/
inductive Token.IsFault (filename : Text) (token : Token) : SourceError → Prop
  | unknownText : token.kind = .unknown →
      IsFault filename token ⟨.unknownText token.text, filename, token.position⟩
  | unexpected (expected : Text) :
      IsFault filename token ⟨.unexpected expected token.describe, filename, token.position⟩

/-- An operation gives only tokens of a list, and an error in the text is about one of them. -/
def TellsOf (filename : Text) (tokens : List Token) : Except ReadError Answer → Prop
  | .ok answer => answer.given ⊆ tokens
  | .error (.source e) => ∃ token ∈ tokens, token.IsFault filename e
  | .error _ => True

theorem tellsOf_refusal {why : Refusal} {taken : Bool} (h : p.feed token = .refuse why taken)
    (hmem : token ∈ tokens) : TellsOf filename tokens (.error (why.error filename token)) := by
  cases Pending.refuses_of_feed h with
  | unknown hunknown => exact ⟨token, hmem, .unknownText hunknown⟩
  | count => trivial
  | _ => exact ⟨token, hmem, .unexpected _⟩

theorem Cursor.charAt_eq_error {c : Cursor} {distance : Int} (h : c.charAt distance = .error e) :
    e = .outOfRange := by
  unfold charAt at h
  dsimp only at h
  split_ifs at h
  cases h
  rfl

namespace TokenStream

/-- What an operation does to a stream in a text: the stream stays in the text, its cursor does not
move back, and what is looked at or told are tokens from before the cursor or behind it. -/
structure MovesOn (source filename : Text) (s : TokenStream)
    (done : Except ReadError Answer × TokenStream) : Prop where
  standsIn : done.2.StandsIn source
  exists_row : ∃ scanned o, Token.Row source s.cursor.offset scanned o ∧
    o ≤ done.2.cursor.offset ∧ done.2.buffer.toList ⊆ s.buffer.toList ++ scanned ∧
    TellsOf filename (s.buffer.toList ++ scanned) done.1

theorem MovesOn.offset_le {done : Except ReadError Answer × TokenStream}
    (h : s.MovesOn source filename done) : s.cursor.offset ≤ done.2.cursor.offset := by
  obtain ⟨scanned, o, hrow, ho, -⟩ := h.exists_row
  exact hrow.offset_le.trans ho

theorem Yields.movesOn (h : s.Yields source tokens s') (hs' : s'.StandsIn source)
    (htells : TellsOf filename (tokens ++ s'.buffer.toList) r) :
    s.MovesOn source filename (r, s') := by
  obtain ⟨scanned, hrow, heq⟩ := h
  rw [heq] at htells
  refine ⟨hs', scanned, _, hrow, Nat.le_refl _, ?_, htells⟩
  rw [← heq]
  exact List.subset_append_right _ _

/-! ## Operations on characters -/

theorem StandsIn.moveTo (h : s.StandsIn source) (n : Nat) :
    (s.moveTo (s.cursor.advance n)).StandsIn source := by
  refine ⟨h.cursor.advance n, fun token htoken => ?_⟩
  obtain ⟨o, ho, hle⟩ := h.buffer token htoken
  exact ⟨o, ho, hle.trans (s.cursor.offset_le_advance n)⟩

theorem StandsIn.movesOn_advance (h : s.StandsIn source) (n : Nat) {answer : Answer}
    (hanswer : answer.given = []) :
    s.MovesOn source filename (.ok answer, s.moveTo (s.cursor.advance n)) := by
  have hnone : answer.given ⊆ s.buffer.toList ++ [] := by simp [hanswer]
  exact ⟨h.moveTo n, [], _, .nil _, s.cursor.offset_le_advance n,
    List.subset_append_left _ _, hnone⟩

theorem StandsIn.movesOn_scan (h : s.StandsIn source) :
    s.MovesOn source filename (.ok (.token s.cursor.scan.1), s.moveTo s.cursor.scan.2) := by
  have hrow : Token.Row source s.cursor.offset [s.cursor.scan.1] s.cursor.scan.2.offset := by
    rw [s.cursor.offset_scan]
    exact .cons h.cursor.standsAt_scan (.nil _)
  have hstands : (s.moveTo s.cursor.scan.2).StandsIn source := by
    rw [s.cursor.scan_snd]
    exact h.moveTo _
  refine ⟨hstands, _, _, hrow, Nat.le_refl _, ?_, ?_⟩
  · exact List.subset_append_left _ _
  · exact List.subset_append_right _ _

/-! ## Operations on tokens -/

theorem StandsIn.movesOn_peek (h : s.StandsIn source) :
    s.MovesOn source filename (.ok (.token s.peek.1), s.peek.2) := by
  refine h.yields_peek.movesOn h.peek ?_
  rw [buffer_peek]
  exact List.subset_append_right _ _

theorem StandsIn.movesOn_pop (h : s.StandsIn source) :
    s.MovesOn source filename (.ok (.token s.peek.1), s.pop.2) :=
  h.yields_pop.movesOn h.pop (List.subset_append_left _ _)

theorem StandsIn.movesOn_drain (h : s.StandsIn source) (withBlanks : Bool) :
    s.MovesOn source filename ((s.listTokens withBlanks).map (.ok <| .tokens ·) id) := by
  have hkept : (s.listTokens withBlanks).1 ⊆ s.drain.1 := by
    cases withBlanks with
    | true => exact fun _ h => h
    | false => exact fun _ hmem => (List.mem_filter.mp hmem).1
  refine (s.takes_drain.yields h).movesOn (s.takes_drain.standsIn h) ?_
  exact List.Subset.trans hkept (List.subset_append_left _ _)

/-! ## Reading -/

/-- An error tells of the token at which reading stops, whether the token is taken or stays. -/
theorem StandsIn.movesOn_stops (h : s.StandsIn source) (hstops : Stops filename g s e s') :
    s.MovesOn source filename (.error e, s') := by
  cases hstops with
  | @refuse tokens g' s' why taken hreads hrefuse =>
    have hstands := hreads.takes.standsIn h
    have hyields := hreads.takes.yields h
    cases taken with
    | true =>
      refine (hyields.trans hstands.yields_pop).movesOn hstands.pop ?_
      exact tellsOf_refusal hrefuse (by simp)
    | false =>
      refine (hyields.trans hstands.yields_peek).movesOn hstands.peek ?_
      exact tellsOf_refusal hrefuse (by simp)

/-- Reading moves on if it succeeds by taking tokens and goes wrong by stopping at one. -/
theorem StandsIn.movesOn_read {α : Type} {f : α → Answer}
    {result : Except ReadError α × TokenStream} (h : s.StandsIn source)
    (hf : ∀ a, (f a).given = [])
    (hok : ∀ a s', result = (.ok a, s') → ∃ tokens, s.Takes tokens s')
    (herror : ∀ e s', result = (.error e, s') → ∃ g, Stops filename g s e s') :
    s.MovesOn source filename (result.map (·.map f) id) := by
  rcases result with ⟨e | a, s'⟩
  · obtain ⟨g, hstops⟩ := herror e s' rfl
    exact h.movesOn_stops hstops
  · obtain ⟨tokens, htakes⟩ := hok a s' rfl
    have hnone : (f a).given ⊆ tokens ++ s'.buffer.toList := by simp [hf]
    exact (htakes.yields h).movesOn (htakes.standsIn h) hnone

theorem StandsIn.movesOn_skipTrivia (h : s.StandsIn source) :
    s.MovesOn source filename ((s.skipTrivia filename).map (·.map fun _ => .nothing) id) := by
  refine h.movesOn_read (fun _ => rfl) (fun _ s' hskip => ?_) (fun e s' hskip => ?_)
  · obtain ⟨tokens, hreads⟩ := reads_skipTrivia hskip {}
    exact ⟨tokens, hreads.takes⟩
  · exact ⟨{}, stops_skipTrivia hskip {}⟩

theorem StandsIn.movesOn_resume (h : s.StandsIn source) (p : Pending) :
    s.MovesOn source filename ((s.resume filename p).map (·.map .datum) id) := by
  refine h.movesOn_read (fun _ => rfl) (fun d s' hread => ?_) (fun e s' hread => ?_)
  · obtain ⟨tokens, hreads⟩ := (completes_resume hread).exists_reads []
    exact ⟨tokens, hreads.takes⟩
  · exact ⟨_, stops_resume hread []⟩

theorem StandsIn.movesOn_readAll (h : s.StandsIn source) :
    s.MovesOn source filename ((s.readAll filename).map (·.map .data) id) := by
  refine h.movesOn_read (fun _ => rfl) (fun ds s' hread => ?_) (fun e s' hread => ?_)
  · obtain ⟨tokens, hreads⟩ := exists_reads_readAll hread []
    exact ⟨tokens, hreads.takes⟩
  · exact ⟨_, stops_readAll hread []⟩

theorem StandsIn.movesOn_expect (h : s.StandsIn source) (k : Kind) (expected : Text) :
    s.MovesOn source filename ((s.expect filename k expected).map (·.map .token) id) := by
  simp only [expect]
  split_ifs
  · exact h.movesOn_pop
  · refine h.yields_peek.movesOn h.peek ?_
    rw [buffer_peek]
    exact ⟨s.peek.1, by simp, .unexpected expected⟩

theorem StandsIn.movesOn (h : s.StandsIn source) (filename : Text) (op : Operation) :
    s.MovesOn source filename (s.perform filename op) := by
  have hstay {answer : Answer} (hanswer : answer.given = []) :
      s.MovesOn source filename (.ok answer, s) := h.movesOn_advance 0 hanswer
  cases op with
  | peek => exact h.movesOn_peek
  | pop =>
    rw [perform, ← s.peek_fst]
    exact h.movesOn_pop
  | scan => exact h.movesOn_scan
  | drain withBlanks => exact h.movesOn_drain withBlanks
  | advance => exact h.movesOn_advance 1 rfl
  | charAt distance =>
    rw [perform]
    cases hchar : s.cursor.charAt distance with
    | ok c => exact hstay rfl
    | error e =>
      rw [Cursor.charAt_eq_error hchar]
      exact ⟨h, [], _, .nil _, Nat.le_refl _, List.subset_append_left _ _, trivial⟩
  | skipClass k => exact h.movesOn_advance _ rfl
  | startsNumber first => exact hstay rfl
  | skipNumber first => exact h.movesOn_advance _ rfl
  | skipPoints => exact h.movesOn_advance _ rfl
  | skipTrivia => exact h.movesOn_skipTrivia
  | readDatum => exact h.movesOn_resume _
  | readAll => exact h.movesOn_readAll
  | readList opener =>
    cases opener with
    | opener b => exact h.movesOn_resume _
    | _ => exact ⟨h, [], _, .nil _, Nat.le_refl _, List.subset_append_left _ _, trivial⟩
  | expect k expected => exact h.movesOn_expect k expected

theorem standsIn_after (source filename : Text) (ops : List Operation) :
    ((ofText source).after filename ops).StandsIn source :=
  after_induction (fun _ op h => (h.movesOn filename op).standsIn) (standsIn_ofText source) ops

/-- After any operations, the cursor is at an offset of the text with the place of that offset, and
the token that was looked at stands behind it. The next operation does not move the cursor back.
The tokens that it looks at or gives, and the token that its error is about, are the one that was
looked at or stand in a row from the cursor on. -/
theorem places_true (source filename : Text) (ops : List Operation) (op : Operation) :
    let s := (ofText source).after filename ops
    let done := s.perform filename op
    s.cursor.offset ≤ source.length ∧ s.cursor.ahead = source.drop s.cursor.offset ∧
      s.cursor.position = .following (source.take s.cursor.offset) ∧
      (∀ token, s.buffer = some token →
        ∃ o, token.StandsAt source o ∧ o + token.text.length ≤ s.cursor.offset) ∧
      s.cursor.offset ≤ done.2.cursor.offset ∧
      ∃ scanned o, Token.Row source s.cursor.offset scanned o ∧ o ≤ done.2.cursor.offset ∧
        done.2.buffer.toList ⊆ s.buffer.toList ++ scanned ∧
        TellsOf filename (s.buffer.toList ++ scanned) done.1 := by
  intro s done
  have hs : s.StandsIn source := standsIn_after source filename ops
  have hdone := hs.movesOn filename op
  refine ⟨hs.cursor.offset_le, hs.cursor.ahead_eq, ?_, hs.buffer, hdone.offset_le,
    hdone.exists_row⟩
  rw [hs.cursor.position_eq, hs.cursor.behind_eq]

end TokenStream

end SExpr
