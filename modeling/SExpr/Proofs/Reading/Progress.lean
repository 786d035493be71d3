import SExpr.Proofs.Stream.Drain
import SExpr.Proofs.Stream.Place
import SExpr.Reading.Read

/-!
# Reading as a fold over tokens

What has been read so far is a list of complete data and what is pending after them. Every token
takes this a step further or is refused, and at the end of the input nothing may be pending.
Reading a stream is this fold over the tokens that the stream holds; blanks take no part in it.
-/
namespace SExpr

/-- Complete data, latest first, and what is pending after them. -/
structure Progress where
  data : List Datum := []
  pending : Pending := .datum []
  deriving DecidableEq

/-- What a pending state requires of a token that is to go on with it. -/
def Pending.wanted : Pending → Wanted
  | .datum (.items b _ :: _) => .closer b
  | .datum _ => .expression
  | .closer b _ _ => .closer b

namespace Progress

/-- The effect of a lexeme, or why it is refused. -/
def step (s : Progress) (l : Kind × Text) : Except Refusal Progress :=
  match s.pending.feed ⟨l.1, l.2, {}⟩ with
  | .more next => .ok ⟨s.data, next⟩
  | .done d => .ok ⟨d :: s.data, .datum []⟩
  | .refuse why _ => .error why

/-- The data read when the input ends, or the error that something is still pending. -/
def finish (filename : Text) (last : Token) (s : Progress) : Except ReadError (List Datum) :=
  if s.pending = .datum [] then .ok s.data.reverse
  else .error ((Refusal.wanted s.pending.wanted).error filename last)

/-- The data of tokens in a row before the last token, which is the end of the input. -/
def run (filename : Text) (last : Token) : Progress → List Token → Except ReadError (List Datum)
  | s, [] => s.finish filename last
  | s, token :: tokens =>
    match s.step token.lexeme with
    | .ok s' => s'.run filename last tokens
    | .error why => .error (why.error filename token)

end Progress

namespace Pending

theorem feed_lexeme (p : Pending) (token : Token) :
    p.feed ⟨token.lexeme.1, token.lexeme.2, {}⟩ = p.feed token := rfl

theorem feed_of_end (p : Pending) {token : Token} (h : token.kind = .endOfInput) :
    ∃ taken, p.feed token = .refuse (.wanted p.wanted) taken := by
  rcases p with (_ | ⟨_ | _ | _, _⟩) | _ <;>
    simp [feed, start, extend, wanted, h, Kind.isBlank]

theorem kind_ne_of_feed (p : Pending) {token : Token}
    (h : ∀ why taken, p.feed token ≠ .refuse why taken) : token.kind ≠ .endOfInput := by
  intro hend
  obtain ⟨taken, hrefuse⟩ := p.feed_of_end hend
  exact h _ _ hrefuse

theorem fill_ne_more_nil (d : Datum) (frames : List Frame) : fill d frames ≠ .more (.datum []) := by
  induction frames generalizing d with
  | nil => simp [fill]
  | cons frame frames ih => cases frame <;> simp [fill, ih]

theorem start_ne_more_nil (token : Token) (frames : List Frame) :
    start token frames ≠ .more (.datum []) := by
  unfold start
  split <;> simp [fill_ne_more_nil]

theorem feed_ne_more_nil (p : Pending) {token : Token} (h : token.kind.isBlank = false) :
    p.feed token ≠ .more (.datum []) := by
  simp only [feed, h, Bool.false_eq_true, if_false]
  split_ifs
  · simp
  · split
    · split <;> simp [fill_ne_more_nil]
    · unfold extend
      split
      · split <;> simp [fill_ne_more_nil]
      · simp
      · split <;> simp
      · split
        · simp
        · split <;> simp
      · exact start_ne_more_nil token _
    · exact start_ne_more_nil token _

theorem feed_blank (p : Pending) {token : Token} (h : token.kind.isBlank = true) :
    p.feed token = .more p := by
  simp [feed, h]

theorem feed_unknown (p : Pending) {token : Token} (h : token.kind = .unknown) :
    p.feed token = .refuse .unknownText true := by
  simp [feed, h, Kind.isBlank]

end Pending

namespace Progress

variable {filename : Text} {last token : Token} {data : List Datum} {p next : Pending}

theorem step_of_more (h : p.feed token = .more next) :
    step ⟨data, p⟩ token.lexeme = .ok ⟨data, next⟩ := by
  simp [step, p.feed_lexeme, h]

theorem step_of_done {d : Datum} (h : p.feed token = .done d) :
    step ⟨data, p⟩ token.lexeme = .ok ⟨d :: data, .datum []⟩ := by
  simp [step, p.feed_lexeme, h]

theorem step_of_refuse {why : Refusal} {taken : Bool} (h : p.feed token = .refuse why taken) :
    step ⟨data, p⟩ token.lexeme = .error why := by
  simp [step, p.feed_lexeme, h]

end Progress

namespace TokenStream

variable {filename : Text}

/-- Reading a datum is the fold up to where the datum is complete. -/
theorem run_resume (data : List Datum) (p : Pending) (s : TokenStream)
    (h : p ≠ .datum [] ∨ s.peek.1.kind.isBlank = false ∧ s.peek.1.kind ≠ .endOfInput) :
    Progress.run filename s.last ⟨data, p⟩ s.drain.1 = match s.resume filename p with
      | (.ok d, rest) => Progress.run filename rest.last ⟨d :: data, .datum []⟩ rest.drain.1
      | (.error e, _) => .error e := by
  fun_induction resume filename p s with
  | case1 p s next hfeed ih =>
    have hend : s.peek.1.kind ≠ .endOfInput := p.kind_ne_of_feed (by simp [hfeed])
    have hnext : next ≠ .datum [] := by
      rintro rfl
      by_cases hblank : s.peek.1.kind.isBlank = true
      · rw [p.feed_blank hblank] at hfeed
        obtain rfl : p = .datum [] := by simpa using hfeed
        simp [hblank] at h
      · exact p.feed_ne_more_nil (Bool.eq_false_iff.mpr hblank) hfeed
    rw [drain_of_more hend, Progress.run, Progress.step_of_more hfeed, ← last_of_more hend]
    exact ih (Or.inl hnext)
  | case2 p s d hfeed =>
    have hend : s.peek.1.kind ≠ .endOfInput := p.kind_ne_of_feed (by simp [hfeed])
    rw [drain_of_more hend, Progress.run, Progress.step_of_done hfeed, ← last_of_more hend]
  | case3 p s why taken hfeed =>
    by_cases hend : s.peek.1.kind = .endOfInput
    · obtain ⟨taken', hrefuse⟩ := p.feed_of_end hend
      obtain ⟨rfl, -⟩ : why = .wanted p.wanted ∧ taken = taken' := by simpa [hfeed] using hrefuse
      have hp : p ≠ .datum [] := h.resolve_right fun hright => hright.2 hend
      rw [drain_of_end hend, Progress.run, last_of_end hend]
      simp [Progress.finish, hp]
    · rw [drain_of_more hend, Progress.run, Progress.step_of_refuse hfeed]

theorem run_skipTrivia (state : Progress) (s : TokenStream) :
    Progress.run filename s.last state s.drain.1 = match s.skipTrivia filename with
      | (.ok (), ahead) => Progress.run filename ahead.last state ahead.drain.1
      | (.error e, _) => .error e := by
  obtain ⟨data, p⟩ := state
  fun_induction skipTrivia filename s with
  | case1 s token hblank ih =>
    have hend : s.peek.1.kind ≠ .endOfInput := by
      intro hend
      simp [token, hend, Kind.isBlank] at hblank
    rw [drain_of_more hend, Progress.run, Progress.step_of_more (p.feed_blank hblank),
      ← last_of_more hend]
    exact ih
  | case2 s token hblank hunknown =>
    have hend : s.peek.1.kind ≠ .endOfInput := by
      intro hend
      simp [token, hend] at hunknown
    rw [drain_of_more hend, Progress.run, Progress.step_of_refuse (p.feed_unknown hunknown)]
  | case3 s token hblank hunknown =>
    simp [last]

theorem skipTrivia_ok {s ahead : TokenStream} (h : s.skipTrivia filename = (.ok (), ahead)) :
    ahead.peek.1.kind.isBlank = false := by
  fun_induction skipTrivia filename s with
  | case1 s token hblank ih => exact ih h
  | case2 s token hblank hunknown => simp at h
  | case3 s token hblank hunknown =>
    obtain rfl : s.peek.2 = ahead := by simpa using h
    simpa [token] using hblank

theorem run_readAll (filename : Text) (data : List Datum) (s : TokenStream) :
    Progress.run filename s.last ⟨data, .datum []⟩ s.drain.1 =
      (s.readAll filename).1.map (data.reverse ++ ·) := by
  fun_induction readAll filename s generalizing data with
  | case1 s e ahead hskip =>
    rw [run_skipTrivia, hskip]
    rfl
  | case2 s ahead hskip hend =>
    rw [run_skipTrivia, hskip]
    simp only [drain_of_end hend, Progress.run, Progress.finish, if_true]
    simp [Except.map]
  | case3 s ahead hskip hend e rest hread =>
    rw [run_skipTrivia, hskip]
    simp only
    rw [run_resume data _ _ (Or.inr ⟨skipTrivia_ok hskip, hend⟩)]
    rw [show ahead.resume filename (.datum []) = _ from hread]
    rfl
  | case4 s ahead hskip hend d rest hread e rest' hall ih =>
    rw [run_skipTrivia, hskip]
    simp only
    rw [run_resume data _ _ (Or.inr ⟨skipTrivia_ok hskip, hend⟩)]
    rw [show ahead.resume filename (.datum []) = _ from hread]
    simp only [ih, hall]
    rfl
  | case5 s ahead hskip hend d rest hread ds rest' hall ih =>
    rw [run_skipTrivia, hskip]
    simp only
    rw [run_resume data _ _ (Or.inr ⟨skipTrivia_ok hskip, hend⟩)]
    rw [show ahead.resume filename (.datum []) = _ from hread]
    simp only [ih, hall]
    simp [Except.map]

end TokenStream

namespace Progress

variable {filename : Text}

theorem run_withoutBlanks (filename : Text) (last : Token) (s : Progress) (tokens : List Token) :
    s.run filename last (withoutBlanks tokens) = s.run filename last tokens := by
  induction tokens generalizing s with
  | nil => rfl
  | cons token tokens ih =>
    by_cases hblank : token.kind.isBlank = true
    · have hstep : s.step token.lexeme = .ok s := step_of_more (s.pending.feed_blank hblank)
      simp only [withoutBlanks, List.filter_cons, hblank, Bool.not_true, Bool.false_eq_true,
        if_false, run, hstep]
      exact ih s
    · have hkeep : withoutBlanks (token :: tokens) = token :: withoutBlanks tokens := by
        simp [withoutBlanks, hblank]
      simp only [hkeep, run]
      cases s.step token.lexeme with
      | ok s' => exact ih s'
      | error why => rfl

/-- Reading changed tokens gives the same data or a changed error, if the changes keep the lexemes
and agree on errors. -/
theorem run_map {filename' : Text} {f : Token → Token} {F : ReadError → ReadError}
    (hlexeme : ∀ token, (f token).lexeme = token.lexeme)
    (herror : ∀ (why : Refusal) token,
      why.error filename' (f token) = F (why.error filename token))
    (last : Token) (state : Progress) (tokens : List Token) :
    state.run filename' (f last) (tokens.map f) = (state.run filename last tokens).mapError F := by
  induction tokens generalizing state with
  | nil =>
    rw [List.map_nil, run, run, finish, finish]
    split
    · rfl
    · exact congrArg _ (herror _ last)
  | cons token tokens ih =>
    rw [List.map_cons, run, run, hlexeme]
    cases state.step token.lexeme with
    | ok state' => exact ih state'
    | error why => exact congrArg _ (herror why token)

end Progress

def Token.endOf (source : Text) : Token :=
  ⟨.endOfInput, [], Position.start.afterText source⟩

/-- Reading a text is the fold over its tokens without blanks. -/
theorem parse_eq_run (source filename : Text) :
    parse source filename = Progress.run filename (.endOf source) {} (tokenize source false) := by
  obtain ⟨L, hL⟩ := Lexeme.exists_cut source
  have hcut : Lexeme.Cut (Cursor.ofText source).ahead L := hL
  have hdrain := TokenStream.drain_eq hcut
  have hlast : (TokenStream.ofText source).last = .endOf source := by
    rw [TokenStream.last, TokenStream.ofText, hdrain]
    rfl
  have hrun := TokenStream.run_readAll filename [] (.ofText source)
  have htokens : tokenize source false = withoutBlanks (TokenStream.ofText source).drain.1 := rfl
  rw [htokens, Progress.run_withoutBlanks, ← hlast, parse]
  refine (hrun.trans ?_).symm
  cases ((TokenStream.ofText source).readAll filename).1 with
  | ok data => rfl
  | error e => rfl

namespace Progress

variable {s s' : Progress} {l : Kind × Text} {L L₁ L₂ : List (Kind × Text)} {tokens : List Token}
  {filename : Text} {last : Token} {data : List Datum} {e : ReadError}

/-- All the lexemes are taken in turn, and the last of them leads to `s'`. -/
def Leads (s : Progress) (L : List (Kind × Text)) (s' : Progress) : Prop :=
  L.foldlM step s = .ok s'

@[simp] theorem leads_nil : s.Leads [] s' ↔ s = s' := by
  unfold Leads
  exact Except.ok.injEq s s' ▸ Iff.rfl

@[simp] theorem leads_cons : s.Leads (l :: L) s' ↔ ∃ s₁, s.step l = .ok s₁ ∧ s₁.Leads L s' := by
  unfold Leads
  rw [List.foldlM_cons]
  cases s.step l with
  | ok s₁ => simp [bind, Except.bind]
  | error why => simp [bind, Except.bind]

theorem Leads.unique {s₁ : Progress} (h : s.Leads L s₁) (h' : s.Leads L s') : s₁ = s' :=
  Except.ok.inj (h.symm.trans h')

theorem leads_append : s.Leads (L₁ ++ L₂) s' ↔ ∃ s₁, s.Leads L₁ s₁ ∧ s₁.Leads L₂ s' := by
  induction L₁ generalizing s with
  | nil => simp
  | cons l L₁ ih =>
    simp only [List.cons_append, leads_cons, ih]
    constructor
    · intro h
      obtain ⟨s₁, hstep, s₂, hleads, hrest⟩ := h
      exact ⟨s₂, ⟨s₁, hstep, hleads⟩, hrest⟩
    · intro h
      obtain ⟨s₂, ⟨s₁, hstep, hleads⟩, hrest⟩ := h
      exact ⟨s₁, hstep, s₂, hleads, hrest⟩

theorem finish_eq_ok : s.finish filename last = .ok data ↔ s = ⟨data.reverse, .datum []⟩ := by
  obtain ⟨read, p⟩ := s
  unfold finish
  by_cases hp : p = .datum []
  · simp [hp, List.reverse_eq_iff]
  · simp [hp]

theorem run_append {tokens' : List Token} (h : s.Leads (tokens.map Token.lexeme) s') :
    s.run filename last (tokens ++ tokens') = s'.run filename last tokens' := by
  induction tokens generalizing s with
  | nil =>
    obtain rfl := leads_nil.mp h
    rfl
  | cons token tokens ih =>
    obtain ⟨s₁, hstep, hleads⟩ := leads_cons.mp h
    rw [List.cons_append, run, hstep]
    exact ih hleads

/-- Reading gives data if nothing refuses and nothing is left pending. -/
theorem run_eq_ok : s.run filename last tokens = .ok data ↔
    s.Leads (tokens.map Token.lexeme) ⟨data.reverse, .datum []⟩ := by
  induction tokens generalizing s with
  | nil => simp [run, finish_eq_ok]
  | cons token tokens ih =>
    rw [List.map_cons, leads_cons, run]
    cases s.step token.lexeme with
    | ok s₁ => simp [ih]
    | error why => simp

/-- An error is that of a refused token, before which all tokens are taken, or that of something
pending at the end. -/
theorem run_eq_error : s.run filename last tokens = .error e ↔
    (∃ before token after s₁ why, tokens = before ++ token :: after ∧
      s.Leads (before.map Token.lexeme) s₁ ∧ s₁.step token.lexeme = .error why ∧
      e = why.error filename token) ∨
    ∃ s₁, s.Leads (tokens.map Token.lexeme) s₁ ∧ s₁.pending ≠ .datum [] ∧
      e = (Refusal.wanted s₁.pending.wanted).error filename last := by
  induction tokens generalizing s with
  | nil =>
    by_cases hp : s.pending = .datum [] <;> simp [run, finish, hp, eq_comm]
  | cons token tokens ih =>
    rw [run]
    constructor
    · intro h
      cases hstep : s.step token.lexeme with
      | ok s₁ =>
        rw [hstep] at h
        rcases ih.mp h with
          ⟨before, token', after, s₂, why, rfl, hleads, hrest⟩ | ⟨s₂, hleads, hrest⟩
        · refine Or.inl ⟨token :: before, token', after, s₂, why, rfl, ?_, hrest⟩
          exact leads_cons.mpr ⟨s₁, hstep, hleads⟩
        · exact Or.inr ⟨s₂, leads_cons.mpr ⟨s₁, hstep, hleads⟩, hrest⟩
      | error why =>
        rw [hstep] at h
        exact Or.inl ⟨[], token, tokens, s, why, rfl, leads_nil.mpr rfl, hstep,
          (Except.error.inj h).symm⟩
    · intro h
      rcases h with ⟨before, token', after, s₂, why, heq, hleads, hstep, rfl⟩ | ⟨s₂, hleads, hrest⟩
      · cases before with
        | nil =>
          obtain ⟨rfl, rfl⟩ := List.cons.inj heq
          obtain rfl := leads_nil.mp hleads
          rw [hstep]
        | cons token'' before =>
          obtain ⟨rfl, rfl⟩ := List.cons.inj heq
          obtain ⟨s₁, hstep₁, hleads⟩ := leads_cons.mp hleads
          rw [hstep₁]
          exact ih.mpr (Or.inl ⟨before, token', after, s₂, why, rfl, hleads, hstep, rfl⟩)
      · obtain ⟨s₁, hstep₁, hleads⟩ := leads_cons.mp hleads
        rw [hstep₁]
        exact ih.mpr (Or.inr ⟨s₂, hleads, hrest⟩)

end Progress

theorem parse_eq_ok {source filename : Text} {data : List Datum} :
    parse source filename = .ok data ↔
      Progress.Leads {} ((tokenize source false).map Token.lexeme) ⟨data.reverse, .datum []⟩ := by
  rw [parse_eq_run, Progress.run_eq_ok]

end SExpr
