import SExpr.Operation
import SExpr.Proofs.Reading.Grammar
import SExpr.Proofs.Reading.Outcome
import SExpr.Proofs.Reading.Places

/-!
# What reading removes

Whether it succeeds or fails, a call of the reader removes tokens off the front of those that are
left in a stream, and nothing else. What was removed accounts for the outcome: a datum is that of
the form whose lexemes were removed, and an error is about the last token that was removed or about
the first one that is left.
-/
namespace SExpr

open Progress

/-- A call of the reader. -/
inductive Call
  | expect (k : Kind) (expected : Text)
  | skipTrivia
  | readDatum
  | readList (opener : Kind)
  | readAll
  deriving DecidableEq, Repr

def Bracket.opener : Bracket → Char
  | round => '('
  | square => '['

namespace Call

def operation : Call → Operation
  | expect k expected => .expect k expected
  | skipTrivia => .skipTrivia
  | readDatum => .readDatum
  | readList opener => .readList opener
  | readAll => .readAll

/-- The lexemes of what a call reads that stand before the stream: reading on from an opener, the
opener. -/
def opened : Call → List (Kind × Text)
  | readList (.opener b) => [(.opener b, [b.opener])]
  | _ => []

def pending : Call → Pending
  | readList (.opener b) => .datum [.items b []]
  | _ => .datum []

/-- The errors that leave the token they are about in the stream: a missing closer, a point or an
ellipsis directly behind an opener, and every token that is not what it was checked for. -/
def Keeps (call : Call) (removed : List Token) (expected : Text) (token : Token) : Prop :=
  (∃ k, call = expect k expected) ∨ (∃ b, expected = (Wanted.closer b).describe) ∨
    (token.kind = .dot ∨ token.kind = .ellipsis) ∧ ∃ b t,
      (call.opened ++ (withoutBlanks removed).map Token.lexeme).getLast? = some (.opener b, t)

/-- Where an error stops a call, told by the tokens that it has removed and those that are left.
Unknown text is removed. The token that is found in place of what was expected is the last one
removed or the first one left; of the end of the input nothing is left. -/
def StopsBetween (call : Call) (removed left : List Token) : ReadError → Prop
  | .source ⟨.unknownText text, _, place⟩ =>
    ∃ before, removed = before ++ [⟨.unknown, text, place⟩]
  | .source ⟨.unexpected expected found, _, place⟩ =>
    ∃ before token, found = token.describe ∧ place = token.position ∧
      (token.kind = .endOfInput → removed = before ∧ left = []) ∧
      (token.kind ≠ .endOfInput → call.Keeps before expected token →
        removed = before ∧ left.head? = some token) ∧
      (token.kind ≠ .endOfInput → ¬ call.Keeps before expected token →
        removed = before ++ [token])
  | _ => True

/-- A datum that a call reads is the value of a form, which ends with the last token that was
removed. No token is looked at then. The cursor is right behind that last token, if before the call
no token was looked at or the cursor was right behind it. -/
def EndsForm (call : Call) (source : Text) (s : TokenStream) (removed : List Token) (d : Datum)
    (s' : TokenStream) : Prop :=
  s'.buffer = none ∧ ∃ before last, ∃ form : Form, removed = before ++ [last] ∧
    last.kind.isBlank = false ∧ form.value = d ∧
    form.lexemes = call.opened ++ (withoutBlanks removed).map Token.lexeme ∧
    ((∀ token, s.buffer = some token →
      ∃ o, token.StandsAt source o ∧ s.cursor.offset = o + token.text.length) →
      ∃ o, last.StandsAt source o ∧ s'.cursor.offset = o + last.text.length)

end Call

/-- The tokens that are left in a stream: the one that was looked at, if it is not the end of the
input, and those from the cursor to the end of the text. -/
def TokenStream.rest (s : TokenStream) : List Token :=
  s.buffer.toList.filter (·.kind ≠ .endOfInput) ++ (drain ⟨s.cursor, none⟩).1

variable {source filename : Text} {s s' : TokenStream} {tokens before : List Token}
  {token last : Token} {g g' : Progress} {d : Datum} {p : Pending} {e : ReadError}
  {l : Kind × Text} {L : List (Kind × Text)} {call : Call}

/-! ## Where an opener was last -/

namespace Progress

theorem leads_withoutBlanks (tokens : List Token) :
    g.Leads ((withoutBlanks tokens).map Token.lexeme) g' ↔
      g.Leads (tokens.map Token.lexeme) g' := by
  induction tokens generalizing g with
  | nil => rfl
  | cons token tokens ih =>
    by_cases hblank : token.kind.isBlank = true
    · have hstep : g.step token.lexeme = .ok g := step_of_more (g.pending.feed_blank hblank)
      rw [withoutBlanks_cons, if_pos hblank, ih, List.map_cons, leads_cons, hstep]
      simp
    · rw [withoutBlanks_cons, if_neg hblank, List.map_cons, List.map_cons, leads_cons, leads_cons]
      simp only [ih]

def Opened (g : Progress) : Prop :=
  ∃ b frames, g.pending = .datum (.items b [] :: frames)

theorem not_opened_complete (data : List Datum) (d : Datum) (frames : List Frame) :
    ¬ (complete data d frames).Opened := by
  induction frames generalizing d with
  | nil => simp [complete, Opened]
  | cons frame frames ih =>
    cases frame with
    | abbreviation a => exact ih _
    | items b read => simp [complete, Opened]
    | tail b read => simp [complete, Opened]

theorem opened_step_iff (hl : l.1.isBlank = false) (h : g.step l = .ok g') :
    g'.Opened ↔ ∃ b, l.1 = .opener b := by
  obtain ⟨data, frames | ⟨b, list, frames⟩⟩ := g
  · rcases (step_datum_iff hl).mp h with hb | ⟨b, read, outer, rfl, he⟩
    · cases hb with
      | @atom k t f hf =>
        refine iff_of_false (not_opened_complete _ _ _) ?_
        cases k <;> simp [Form.ofAtom?] at hf ⊢
      | abbreviation a t => simp [Opened]
      | opener b t => simp [Opened]
    · cases he with
      | closer t => simp [not_opened_complete]
      | dot t hread => simp [Opened]
      | ellipsis hread hn => simp [Opened]
  · obtain ⟨hk, rfl⟩ := (step_closer_iff hl).mp h
    simp [not_opened_complete, hk]

theorem opened_leads_iff (hL : ∀ l ∈ L, l.1.isBlank = false) (h : Leads {} L g) :
    g.Opened ↔ ∃ b t, L.getLast? = some (.opener b, t) := by
  rcases L.eq_nil_or_concat with rfl | ⟨L, l, rfl⟩
  · obtain rfl := leads_nil.mp h
    simp [Opened]
  · obtain ⟨g₁, -, hlast⟩ := leads_append.mp (List.concat_eq_append ▸ h)
    obtain ⟨g₂, hstep, hnil⟩ := leads_cons.mp hlast
    obtain rfl := leads_nil.mp hnil
    have hl : l.1.isBlank = false := hL l (by simp)
    rw [opened_step_iff hl hstep]
    simp [Prod.ext_iff]

end Progress

namespace Call

theorem leads_opened (call : Call) : Leads {} call.opened ⟨[], call.pending⟩ := by
  cases call with
  | readList opener =>
    cases opener with
    | opener b => exact leads_begins (.opener b _) (leads_nil.mpr rfl)
    | _ => exact leads_nil.mpr rfl
  | _ => exact leads_nil.mpr rfl

theorem isPlain_opened (call : Call) : IsPlain call.opened := by
  cases call with
  | readList opener => cases opener <;> simp [opened, IsPlain, Kind.isBlank]
  | _ => simp [opened, IsPlain]

end Call

/-! ## Tokens that were taken -/

namespace TokenStream

theorem Yields.exists_standsAt (h : s.Yields source tokens s') (hs : s.StandsIn source)
    (hmem : token ∈ tokens) : ∃ o, token.StandsAt source o := by
  obtain ⟨scanned, hrow, heq⟩ := h
  have hmem : token ∈ s.buffer.toList ++ scanned := heq ▸ List.mem_append_left _ hmem
  rcases List.mem_append.mp hmem with hbuffer | hscanned
  · obtain ⟨o, ho, -⟩ := hs.buffer token (Option.mem_toList.mp hbuffer)
    exact ⟨o, ho⟩
  · exact hrow.exists_standsAt hscanned

/-- If the token that was looked at ended at the cursor, or there was none, then the cursor is right
behind the last token that left. -/
theorem Yields.exists_end (h : s.Yields source (before ++ [last]) s') (hnone : s'.buffer = none)
    (hbuffer : ∀ token, s.buffer = some token →
      ∃ o, token.StandsAt source o ∧ s.cursor.offset = o + token.text.length) :
    ∃ o, last.StandsAt source o ∧ s'.cursor.offset = o + last.text.length := by
  obtain ⟨scanned, hrow, heq⟩ := h
  rw [hnone, Option.toList_none, List.append_nil] at heq
  -- if nothing was scanned, the last token is the one that was looked at
  rcases scanned.eq_nil_or_concat with rfl | ⟨scanned, last', rfl⟩
  · have hlooked : s.buffer = some last := by
      rw [List.append_nil] at heq
      cases hcase : s.buffer with
      | none => simp [hcase] at heq
      | some token =>
        have heq : before ++ [last] = [] ++ [token] := by rw [heq, hcase, Option.toList_some]; rfl
        obtain ⟨rfl, -⟩ := List.cons.inj (List.append_inj' heq rfl).2
        rfl
    obtain ⟨o, ho, hoffset⟩ := hbuffer last hlooked
    exact ⟨o, ho, hrow.eq_of_nil.trans hoffset⟩
  · rw [List.concat_eq_append] at heq hrow
    rw [← List.append_assoc] at heq
    obtain rfl : last = last' := by simpa using (List.append_inj' heq rfl).2
    exact hrow.exists_last

theorem Takes.isPlain (h : Takes s tokens s') (hs : s.StandsIn source) :
    IsPlain ((withoutBlanks tokens).map Token.lexeme) := by
  intro l hl
  obtain ⟨token, hkept, rfl⟩ := List.mem_map.mp hl
  obtain ⟨hmem, hblank⟩ := List.mem_filter.mp hkept
  have hblank : token.kind.isBlank = false := by simpa using hblank
  refine ⟨hblank, fun hk n hn => ?_⟩
  have hk : token.kind = .ellipsis := hk
  have hn : repeatCount token.text = .ok n := hn
  obtain ⟨o, ho⟩ := (h.yields hs).exists_standsAt hs hmem
  cases ho with
  | @lexeme o k t rest hdrop hlong =>
    obtain rfl : k = .ellipsis := hk
    have hn : repeatCount t = .ok n := hn
    rw [repeatCount_of_isEllipsis hlong.1] at hn
    split_ifs at hn
    exact (Except.ok.inj hn).symm
  | endOfInput => cases hk

theorem StandsIn.rest_eq (h : s.StandsIn source) : s.rest = s.drain.1 := by
  obtain ⟨cursor, _ | token⟩ := s
  · rfl
  · by_cases hend : token.kind = .endOfInput
    · have hnone : (drain ⟨cursor, none⟩).1 = [] := h.drain_pop_of_end hend
      have hpeek : (TokenStream.peek ⟨cursor, some token⟩).1.kind = .endOfInput := hend
      rw [rest, hnone, drain_of_end hpeek]
      simp [hend]
    · have hpeek : (TokenStream.peek ⟨cursor, some token⟩).1.kind ≠ .endOfInput := hend
      have hkept : [token].filter (·.kind ≠ .endOfInput) = [token] := by simp [hend]
      rw [rest, drain_of_more hpeek]
      exact congrArg (· ++ (drain ⟨cursor, none⟩).1) hkept

/-- Taking a token removes it, unless it is the end of the input, behind which nothing is left. -/
theorem StandsIn.exists_removed_pop (h : s.StandsIn source) :
    ∃ removed, s.drain.1 = removed ++ s.pop.2.drain.1 ∧
      (s.peek.1.kind = .endOfInput → removed = [] ∧ s.pop.2.drain.1 = []) ∧
      (s.peek.1.kind ≠ .endOfInput → removed = [s.peek.1]) := by
  by_cases hend : s.peek.1.kind = .endOfInput
  · refine ⟨[], ?_, fun _ => ⟨rfl, h.drain_pop_of_end hend⟩, fun hmore => absurd hend hmore⟩
    rw [drain_of_end hend, h.drain_pop_of_end hend, List.append_nil]
  · exact ⟨[s.peek.1], (takes_pop hend).drain_eq, fun h => absurd h hend, fun _ => rfl⟩

theorem drain_eq_nil (h : s.peek.1.kind = .endOfInput) : s.drain.1 = [] := by
  rw [drain_of_end h]

theorem head?_drain (h : s.peek.1.kind ≠ .endOfInput) : s.drain.1.head? = some s.peek.1 := by
  rw [drain_of_more h, List.head?_cons]

end TokenStream

/-! ## Outcomes -/

namespace Reads

theorem leads_opened (h : Reads ⟨[], call.pending⟩ s tokens g s') :
    Leads {} (call.opened ++ (withoutBlanks tokens).map Token.lexeme) g :=
  leads_append.mpr ⟨_, call.leads_opened, (leads_withoutBlanks tokens).mpr h.leads⟩

theorem isPlain (h : Reads g s tokens g' s') (hs : s.StandsIn source) (call : Call) :
    IsPlain (call.opened ++ (withoutBlanks tokens).map Token.lexeme) :=
  isPlain_append.mpr ⟨call.isPlain_opened, h.takes.isPlain hs⟩

theorem opened_iff (h : Reads ⟨[], call.pending⟩ s tokens g s') (hs : s.StandsIn source) :
    g.Opened ↔ ∃ b t,
      (call.opened ++ (withoutBlanks tokens).map Token.lexeme).getLast? = some (.opener b, t) :=
  opened_leads_iff (fun l hl => (h.isPlain hs call l hl).1) h.leads_opened

end Reads

/-- The tokens that complete a datum are those of a form, of which the last one is taken last. -/
theorem Completes.exists_form (hs : s.StandsIn source) (h : Completes call.pending s d s') :
    s'.buffer = none ∧ ∃ before last, ∃ form : Form, s.Takes (before ++ [last]) s' ∧
      last.kind.isBlank = false ∧ form.value = d ∧
      form.lexemes = call.opened ++ (withoutBlanks (before ++ [last])).map Token.lexeme := by
  cases h with
  | @done tokens q s₁ d hreads hdone =>
    have hall := (hreads []).trans (.take (step_of_done hdone))
    have hlast : s₁.peek.1.kind.isBlank = false := by
      by_contra hblank
      rw [q.feed_blank (by simpa using hblank)] at hdone
      cases hdone
    obtain ⟨forms, hlexemes, hvalues⟩ := exists_forms (hall.isPlain hs call) hall.leads_opened
    have hvalues : forms.map Form.value = [d] := by simpa using congrArg List.reverse hvalues.symm
    obtain ⟨form, rfl, hvalue⟩ := List.map_eq_singleton_iff.mp hvalues
    refine ⟨s₁.buffer_pop, tokens, s₁.peek.1, form, hall.takes, hlast, hvalue, ?_⟩
    rw [hlexemes, List.flatMap_singleton]

namespace Call

theorem stopsBetween_kept {expected : Text} (h : call.Keeps tokens expected s.peek.1) :
    call.StopsBetween tokens s.peek.2.drain.1
      (.source ⟨.unexpected expected s.peek.1.describe, filename, s.peek.1.position⟩) := by
  refine ⟨tokens, s.peek.1, rfl, rfl, fun hend => ⟨rfl, ?_⟩, fun hmore _ => ⟨rfl, ?_⟩, ?_⟩
  · rw [TokenStream.drain_peek, TokenStream.drain_eq_nil hend]
  · rw [TokenStream.drain_peek, TokenStream.head?_drain hmore]
  · exact fun _ hnot => absurd h hnot

theorem not_keeps (hcall : ∀ k expected, call ≠ expect k expected)
    (hopener : ¬ ∃ b t,
      (call.opened ++ (withoutBlanks tokens).map Token.lexeme).getLast? = some (.opener b, t)) :
    ¬ call.Keeps tokens Wanted.expression.describe token := by
  rintro (⟨k, hk⟩ | ⟨b, hb⟩ | ⟨-, hlast⟩)
  · exact hcall k _ hk
  · cases b <;> cases hb
  · exact hopener hlast

end Call

/-- Where reading stops at a refused token, the tokens before it were removed, and the token itself
is removed or left as the reason for the refusal has it. -/
theorem Stops.exists_removed (hs : s.StandsIn source)
    (hcall : ∀ k expected, call ≠ .expect k expected)
    (h : Stops filename ⟨[], call.pending⟩ s e s') :
    ∃ removed, s.drain.1 = removed ++ s'.drain.1 ∧ call.StopsBetween removed s'.drain.1 e := by
  cases h with
  | @refuse tokens g s₁ why taken hreads hrefuse =>
    have hdrain := hreads.takes.drain_eq
    have hopened := hreads.opened_iff hs
    obtain ⟨removed, hpop, hend, hmore⟩ := (hreads.takes.standsIn hs).exists_removed_pop
    have hremoved : s.drain.1 = (tokens ++ removed) ++ s₁.pop.2.drain.1 := by
      rw [hdrain, hpop, List.append_assoc]
    have hleft : s.drain.1 = tokens ++ s₁.peek.2.drain.1 := by
      rw [hdrain, TokenStream.drain_peek]
    obtain ⟨data, p⟩ := g
    -- an unknown token, one that begins no form, and a bad count are taken; the others stay
    cases Pending.refuses_of_feed hrefuse with
    | unknown hunknown =>
      have hmore := hmore (by simp [hunknown])
      refine ⟨_, hremoved, tokens, ?_⟩
      rw [hmore, ← hunknown]
    | noForm hframes =>
      have hnot : ¬ call.Keeps tokens Wanted.expression.describe s₁.peek.1 := by
        refine Call.not_keeps hcall (mt hopened.mpr ?_)
        rintro ⟨b, frames, heq⟩
        exact hframes b [] frames (Pending.datum.inj heq)
      refine ⟨_, hremoved, tokens, s₁.peek.1, rfl, rfl, fun h => ?_, fun _ h => ?_, fun h _ => ?_⟩
      · rw [(hend h).1, List.append_nil]
        exact ⟨rfl, (hend h).2⟩
      · exact absurd h hnot
      · rw [hmore h]
    | @noItem b frames _ hkind =>
      have hopener := hopened.mp ⟨b, frames, rfl⟩
      exact ⟨_, hleft, Call.stopsBetween_kept (Or.inr (Or.inr ⟨hkind, hopener⟩))⟩
    | @noCloser _ b => exact ⟨_, hleft, Call.stopsBetween_kept (Or.inr (Or.inl ⟨b, rfl⟩))⟩
    | count => exact ⟨_, hremoved, trivial⟩

namespace TokenStream

/-- What a call does to a stream: it removes tokens off the front of those that are left, and they
account for the outcome. -/
structure Removes (source : Text) (call : Call) (s : TokenStream) (removed : List Token)
    (done : Except ReadError Answer × TokenStream) : Prop where
  drain_eq : s.drain.1 = removed ++ done.2.drain.1
  datum : ∀ d, done.1 = .ok (.datum d) → call.EndsForm source s removed d done.2
  error : ∀ e, done.1 = .error e → call.StopsBetween removed done.2.drain.1 e

theorem removes_ok {answer : Answer} (h : s.drain.1 = tokens ++ s'.drain.1)
    (hanswer : ∀ d, answer ≠ .datum d) : s.Removes source call tokens (.ok answer, s') :=
  ⟨h, fun d hd => absurd (Except.ok.inj hd) (hanswer d), nofun⟩

theorem removes_error (h : s.drain.1 = tokens ++ s'.drain.1)
    (hstops : call.StopsBetween tokens s'.drain.1 e) :
    s.Removes source call tokens (.error e, s') := by
  refine ⟨h, nofun, fun e' he => ?_⟩
  obtain rfl := Except.error.inj he
  exact hstops

theorem StandsIn.removes_stops (hs : s.StandsIn source)
    (hcall : ∀ k expected, call ≠ .expect k expected)
    (h : Stops filename ⟨[], call.pending⟩ s e s') :
    ∃ removed, s.Removes source call removed (.error e, s') := by
  obtain ⟨removed, hdrain, hstops⟩ := h.exists_removed hs hcall
  exact ⟨removed, removes_error hdrain hstops⟩

theorem StandsIn.removes_completes (hs : s.StandsIn source) (h : Completes call.pending s d s') :
    ∃ removed, s.Removes source call removed (.ok (.datum d), s') := by
  obtain ⟨hbuffer, before, last, form, htakes, hlast, hvalue, hlexemes⟩ := h.exists_form hs
  refine ⟨before ++ [last], htakes.drain_eq, fun d' hd => ⟨hbuffer, ?_⟩, nofun⟩
  obtain rfl := Answer.datum.inj (Except.ok.inj hd)
  exact ⟨before, last, form, rfl, hlast, hvalue, hlexemes, (htakes.yields hs).exists_end hbuffer⟩

theorem StandsIn.removes_resume (hs : s.StandsIn source) (call : Call)
    (hcall : ∀ k expected, call ≠ .expect k expected) :
    ∃ removed, s.Removes source call removed
      ((s.resume filename call.pending).map (·.map .datum) id) := by
  rcases hread : s.resume filename call.pending with ⟨e | d, s'⟩
  · exact hs.removes_stops hcall (stops_resume hread [])
  · exact hs.removes_completes (completes_resume hread)

theorem StandsIn.removes_expect (hs : s.StandsIn source) (k : Kind) (expected : Text) :
    ∃ removed, s.Removes source (.expect k expected) removed
      ((s.expect filename k expected).map (·.map .token) id) := by
  simp only [expect]
  split_ifs with hk
  · obtain ⟨removed, hdrain, -⟩ := hs.exists_removed_pop
    exact ⟨removed, removes_ok hdrain (by simp)⟩
  · have hdrain : s.drain.1 = [] ++ s.peek.2.drain.1 := by rw [drain_peek, List.nil_append]
    exact ⟨[], removes_error hdrain (Call.stopsBetween_kept (Or.inl ⟨k, rfl⟩))⟩

theorem StandsIn.exists_removes (hs : s.StandsIn source) (filename : Text) (call : Call) :
    ∃ removed, s.Removes source call removed (s.perform filename call.operation) := by
  cases call with
  | expect k expected => exact hs.removes_expect k expected
  | skipTrivia =>
    show ∃ removed, s.Removes source .skipTrivia removed
      ((s.skipTrivia filename).map (·.map fun _ => .nothing) id)
    rcases hskip : s.skipTrivia filename with ⟨e | done, s'⟩
    · exact hs.removes_stops (by simp) (stops_skipTrivia hskip _)
    · obtain ⟨tokens, hreads⟩ := reads_skipTrivia hskip {}
      exact ⟨tokens, removes_ok hreads.takes.drain_eq (by simp)⟩
  | readDatum => exact hs.removes_resume .readDatum (by simp)
  | readList opener =>
    cases opener with
    | opener b => exact hs.removes_resume (.readList (.opener b)) (by simp)
    | _ => exact ⟨[], removes_error rfl trivial⟩
  | readAll =>
    show ∃ removed, s.Removes source .readAll removed
      ((s.readAll filename).map (·.map .data) id)
    rcases hread : s.readAll filename with ⟨e | ds, s'⟩
    · exact hs.removes_stops (by simp) (stops_readAll hread _)
    · obtain ⟨tokens, hreads⟩ := exists_reads_readAll hread []
      exact ⟨tokens, removes_ok hreads.takes.drain_eq (by simp)⟩

/-- After any operations, what a call leaves in the stream is what was left before without tokens
off its front, whether the call succeeds or fails. A datum ends with the last token that was
removed. An error is about that token or about the first one that is left. -/
theorem calls_remove_front (source filename : Text) (ops : List Operation) (call : Call) :
    let s := (ofText source).after filename ops
    let done := s.perform filename call.operation
    ∃ removed, s.rest = removed ++ done.2.rest ∧
      (∀ d, done.1 = .ok (.datum d) → call.EndsForm source s removed d done.2) ∧
      ∀ e, done.1 = .error e → call.StopsBetween removed done.2.rest e := by
  intro s done
  have hs : s.StandsIn source := standsIn_after source filename ops
  have hdone : done.2.StandsIn source := (hs.movesOn filename call.operation).standsIn
  obtain ⟨removed, hremoves⟩ := hs.exists_removes filename call
  refine ⟨removed, ?_, hremoves.datum, ?_⟩
  · rw [hs.rest_eq, hdone.rest_eq]
    exact hremoves.drain_eq
  · rw [hdone.rest_eq]
    exact hremoves.error

end TokenStream

end SExpr
