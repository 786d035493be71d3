import SExpr.Proofs.Reading.Accepted
import SExpr.Proofs.Reading.Outcome
import SExpr.Proofs.Stream.Seam

/-!
# Errors and what can be repaired

Whatever was taken so far can be completed by the text of some closers, so reading goes wrong at the
first token with which no text can be read. A refused token is refused whatever follows, while an
error at the end of the input goes away with what is still needed.
-/
namespace SExpr

variable {source filename s t rest : Text} {k : Kind} {L : List (Kind × Text)}
  {before after : List Token} {token : Token} {why : Refusal} {state state' : Progress}

/-! ## Completions -/

def closers : List Frame → List (Kind × Text)
  | [] => []
  | .abbreviation _ :: frames => closers frames
  | .items b _ :: frames | .tail b _ :: frames => (.closer b, [b.closer]) :: closers frames

/-- Lexemes after which nothing is pending any more. -/
def Pending.completion : Pending → List (Kind × Text)
  | .datum [] => []
  | .datum frames => (.symbol, ['x']) :: closers frames
  | .closer b _ frames => (.closer b, [b.closer]) :: closers frames

theorem leads_closers (data : List Datum) (d : Datum) (frames : List Frame) :
    ∃ data', (Progress.complete data d frames).Leads (closers frames) ⟨data', .datum []⟩ := by
  induction frames generalizing d with
  | nil => exact ⟨_, Progress.leads_nil.mpr rfl⟩
  | cons frame frames ih =>
    cases frame with
    | abbreviation a => exact ih _
    | items b read =>
      obtain ⟨data', hleads⟩ := ih (.ofItems (d :: read).reverse)
      exact ⟨data', leads_ends (.closer _) hleads⟩
    | tail b read =>
      obtain ⟨data', hleads⟩ := ih (.ofItems read.reverse d)
      refine ⟨data', Progress.leads_cons.mpr ⟨_, ?_, hleads⟩⟩
      exact (Progress.step_closer_iff rfl).mpr ⟨rfl, rfl⟩

/-- Every progress can be completed. -/
theorem leads_completion (state : Progress) :
    ∃ data, state.Leads state.pending.completion ⟨data, .datum []⟩ := by
  obtain ⟨data, (_ | ⟨frame, frames⟩) | ⟨b, list, frames⟩⟩ := state
  · exact ⟨data, Progress.leads_nil.mpr rfl⟩
  · obtain ⟨data', hleads⟩ := leads_closers data (.symbol ['x']) (frame :: frames)
    exact ⟨data', leads_begins (.atom (k := .symbol) rfl) hleads⟩
  · obtain ⟨data', hleads⟩ := leads_closers data list frames
    refine ⟨data', Progress.leads_cons.mpr ⟨_, ?_, hleads⟩⟩
    exact (Progress.step_closer_iff rfl).mpr ⟨rfl, rfl⟩

theorem cut_closer_cons (b : Bracket) (h : Lexeme.Cut rest L) :
    Lexeme.Cut (b.closer :: rest) ((.closer b, [b.closer]) :: L) := by
  have hsingle : Lexeme.single? b.closer = some (.closer b) := by
    cases b <;> rfl
  exact (Lexeme.isLongest_single hsingle).cut h

theorem cut_closers (frames : List Frame) :
    Lexeme.Cut (Lexeme.texts (closers frames)) (closers frames) := by
  induction frames with
  | nil => exact .nil
  | cons frame frames ih =>
    cases frame with
    | abbreviation a => exact ih
    | items b read => exact cut_closer_cons b ih
    | tail b read => exact cut_closer_cons b ih

theorem not_unknown_of_closers (frames : List Frame) :
    ∀ c ∈ (Lexeme.texts (closers frames)).head?, CharClass.unknown.contains c = false := by
  induction frames with
  | nil => simp [closers]
  | cons frame frames ih =>
    cases frame with
    | abbreviation a => exact ih
    | items b read => cases b <;> simp [closers, Bracket.closer] <;> decide
    | tail b read => cases b <;> simp [closers, Bracket.closer] <;> decide

theorem cut_completion (p : Pending) : Lexeme.Cut (Lexeme.texts p.completion) p.completion := by
  obtain (_ | ⟨frame, frames⟩) | ⟨b, list, frames⟩ := p
  · exact .nil
  · have his : Lexeme.Is .symbol ['x'] := by
      refine ⟨⟨'x', [], rfl, by decide, by simp⟩, ?_⟩
      simp
    exact (Lexeme.IsLongest.of_delimiter his rfl (not_unknown_of_closers _)).cut
      (cut_closers (frame :: frames))
  · exact cut_closer_cons b (cut_closers frames)

/-! ## Reading on behind a line feed -/

/-- A refused token is refused whatever follows it on further lines. -/
theorem parse_refused (htokens : tokenize s false = before ++ token :: after)
    (hleads : Progress.Leads {} (before.map Token.lexeme) state)
    (hstep : state.step token.lexeme = .error why) (rest : Text) :
    parse (s ++ '\n' :: rest) filename = .error (why.error filename token) := by
  obtain ⟨L, hL⟩ := Lexeme.exists_cut rest
  rw [parse_eq_run, tokenize_append_newline s hL, htokens, List.append_assoc,
    Progress.run_append hleads, List.cons_append, Progress.run, hstep]

/-- Where all tokens are taken, further lines can complete what is pending. -/
theorem exists_parse_append (h : Progress.Leads {} ((tokenize s false).map Token.lexeme) state) :
    ∃ rest data, parse (s ++ '\n' :: rest) filename = .ok data := by
  obtain ⟨data, hleads⟩ := leads_completion state
  refine ⟨Lexeme.texts state.pending.completion, data.reverse, ?_⟩
  rw [parse_eq_run, tokenize_append_newline s (cut_completion _), Progress.run_append h,
    Progress.run_withoutBlanks, Progress.run_eq_ok, Token.map_lexeme_place, List.reverse_reverse]
  exact hleads

/-! ## The place of an error -/

def tokenAt (source : Text) (o : Nat) : Token :=
  ((Cursor.ofText source).advance o).scan.1

theorem tokenAt_append (h : Lexeme.IsLongest k t rest) :
    tokenAt (s ++ (t ++ rest)) s.length = ⟨k, t, Position.start.afterText s⟩ := by
  have hahead : (Cursor.ofText (s ++ (t ++ rest))).ahead = s ++ (t ++ rest) := rfl
  rw [tokenAt, Cursor.advance_append hahead, Cursor.scan_append rfl h]
  rfl

theorem tokenAt_length (source : Text) : tokenAt source source.length = .endOf source := by
  have hahead : (Cursor.ofText source).ahead = source ++ [] := by
    rw [List.append_nil]
    rfl
  rw [tokenAt, Cursor.advance_append hahead, Cursor.scan_nil rfl]
  rfl

theorem exists_place_split {p : Position} (h : Token.place p L = before ++ token :: after) :
    ∃ L₁ L₂, L = L₁ ++ token.lexeme :: L₂ ∧ before = Token.place p L₁ ∧
      token.position = p.afterText (Lexeme.texts L₁) := by
  induction before generalizing p L with
  | nil =>
    cases L with
    | nil => cases h
    | cons lexeme L =>
      obtain ⟨rfl, rfl⟩ := List.cons.inj h
      exact ⟨[], L, rfl, rfl, rfl⟩
  | cons token' before ih =>
    cases L with
    | nil => cases h
    | cons lexeme L =>
      obtain ⟨rfl, htail⟩ := List.cons.inj h
      obtain ⟨L₁, L₂, rfl, rfl, hposition⟩ := ih htail
      refine ⟨lexeme :: L₁, L₂, rfl, rfl, ?_⟩
      rw [hposition, ← Position.afterText_append]
      rfl

theorem exists_source_split (h : tokenize source false = before ++ token :: after) :
    ∃ s rest, source = s ++ (token.text ++ rest) ∧
      Lexeme.IsLongest token.kind token.text rest ∧
      token.position = Position.start.afterText s ∧ tokenize s <+: tokenize source ∧
      tokenize s false = before ∧ tokenize (s ++ token.text) false = before ++ [token] := by
  obtain ⟨L, hL⟩ := Lexeme.exists_cut source
  rw [tokenize_false_eq hL] at h
  obtain ⟨before₀, tail, hplace, rfl, htail⟩ := List.filter_eq_append_iff.mp h
  obtain ⟨blanks, after₀, rfl, hblanks, hkeep, -⟩ := List.filter_eq_cons_iff.mp htail
  -- the blanks before the token are cut off the text with the tokens before it
  rw [← List.append_assoc] at hplace
  obtain ⟨L₁, L₂, rfl, hbefore, hposition⟩ := exists_place_split hplace
  have hbeforeTokens : withoutBlanks (Token.place .start L₁) = withoutBlanks before₀ := by
    have hnone : withoutBlanks blanks = [] := List.filter_eq_nil_iff.mpr hblanks
    rw [← hbefore, withoutBlanks_append, hnone, List.append_nil]
  have hcut : Lexeme.Cut (Lexeme.texts L₁ ++ token.text) (L₁ ++ [token.lexeme]) := by
    have hsplit : L₁ ++ token.lexeme :: L₂ = L₁ ++ [token.lexeme] ++ L₂ := by simp
    rw [hsplit] at hL
    have hmore := hL.truncate
    rwa [Lexeme.texts_append, Lexeme.texts_singleton] at hmore
  have htexts := hL.texts_eq
  rw [Lexeme.texts_append] at htexts
  refine ⟨Lexeme.texts L₁, Lexeme.texts L₂, htexts.symm, ?_, hposition, ?_, ?_, ?_⟩
  · obtain ⟨rest, -, hlong, hrest⟩ := Lexeme.cut_cons_iff.mp hL.remainder
    rwa [hrest.texts_eq]
  · rw [tokenize_eq hL, tokenize_eq hL.truncate, Token.place_append]
    apply List.prefix_append
  · rw [tokenize_false_eq hL.truncate, hbeforeTokens]
    rfl
  · have htoken : Token.place (Position.start.afterText (Lexeme.texts L₁)) [token.lexeme] =
        [token] := by
      rw [← hposition]
      rfl
    have hkept : withoutBlanks [token] = [token] := List.filter_cons_of_pos hkeep
    rw [tokenize_false_eq hcut, Token.place_append, withoutBlanks_append, hbeforeTokens, htoken,
      hkept]
    rfl

/-! ## The first fault -/

theorem Pending.kind_of_unknownText {p : Pending} {taken : Bool}
    (h : p.feed token = .refuse .unknownText taken) : token.kind = .unknown := by
  cases refuses_of_feed h with
  | unknown hunknown => exact hunknown

theorem Token.describe_ne (h : token.kind ≠ .endOfInput) :
    token.describe ≠ "end of input".toList := by
  rw [describe, if_neg h]
  simp

/-- The fault of an error is at an offset that its place tells. It is about the token there, the
text before that token can be completed, and with the token it cannot. -/
structure IsFirstFault (source filename : Text) (e : SourceError) (o : Nat) : Prop where
  addressed : ∀ o' ≤ source.length, Position.following (source.take o') = e.position ↔ o' = o
  fault : (tokenAt source o).kind = .unknown ∧ e.fault = .unknownText (tokenAt source o).text ∨
    (tokenAt source o).kind ≠ .unknown ∧
      ∃ expected, e.fault = .unexpected expected (tokenAt source o).describe
  atEnd_iff : (∃ expected, e.fault = .unexpected expected "end of input".toList) ↔
    o = source.length
  completable : ∃ more data, parse (source.take o ++ '\n' :: more) filename = .ok data
  final : o < source.length → ∀ more,
    parse (source.take (o + (tokenAt source o).text.length) ++ '\n' :: more) filename =
      .error (.source e)
  repairable_iff : (∃ more data, parse (source ++ '\n' :: more) filename = .ok data) ↔
    o = source.length

theorem following_take_iff {o : Nat} {p : Position} (ho : o ≤ source.length)
    (hp : p = Position.start.afterText (source.take o)) :
    ∀ o' ≤ source.length, Position.following (source.take o') = p ↔ o' = o := by
  intro o' ho'
  rw [hp, Position.afterText_start]
  constructor
  · intro h
    exact Position.following_take_inj ho' ho h
  · intro h
    rw [h]

theorem kind_ne_endOfInput (h : token ∈ tokenize source false) : token.kind ≠ .endOfInput := by
  intro hend
  have his := (is_of_mem_tokenize h).1
  rw [hend] at his
  exact his.elim

theorem fault_of_refused {e : SourceError} (hkind : token.kind ≠ .endOfInput)
    (hstep : state.step token.lexeme = .error why) (he : why.error filename token = .source e) :
    e.position = token.position ∧
      (token.kind = .unknown ∧ e.fault = .unknownText token.text ∨
        token.kind ≠ .unknown ∧ ∃ expected, e.fault = .unexpected expected token.describe) ∧
      ¬ ∃ expected, e.fault = .unexpected expected "end of input".toList := by
  cases why with
  | unknownText =>
    cases he
    obtain ⟨taken, hrefuse⟩ := Progress.exists_refuse_of_step hstep
    refine ⟨rfl, Or.inl ⟨Pending.kind_of_unknownText hrefuse, rfl⟩, ?_⟩
    simp
  | wanted w =>
    cases he
    have hunknown : token.kind ≠ .unknown := by
      intro hunknown
      rw [Token.lexeme, hunknown, Progress.step_unknown] at hstep
      cases hstep
    refine ⟨rfl, Or.inr ⟨hunknown, _, rfl⟩, ?_⟩
    intro h
    obtain ⟨expected, hfault⟩ := h
    exact Token.describe_ne hkind (Fault.unexpected.inj hfault).2
  | count error => cases he

/-- A refused token is the first fault, and it stands before the end of the text. -/
theorem isFirstFault_of_refused {e : SourceError}
    (htokens : tokenize source false = before ++ token :: after)
    (hleads : Progress.Leads {} (before.map Token.lexeme) state)
    (hstep : state.step token.lexeme = .error why) (he : why.error filename token = .source e) :
    ∃ o ≤ source.length, IsFirstFault source filename e o := by
  have hmem : token ∈ tokenize source false := by
    rw [htokens]
    simp
  obtain ⟨hplace, hfault, hend⟩ := fault_of_refused (kind_ne_endOfInput hmem) hstep he
  obtain ⟨s, rest, hsource, hlong, hposition, -, hs, hst⟩ := exists_source_split htokens
  have htake : source.take s.length = s := by simp [hsource]
  have htake' : source.take (s.length + token.text.length) = s ++ token.text := by
    rw [hsource, ← List.append_assoc, ← List.length_append, List.take_left]
  have hlt : s.length < source.length := by
    obtain ⟨c, m, htext⟩ := hlong.1.exists_cons
    simp [hsource, htext]
  have htoken : tokenAt source s.length = token := by
    rw [hsource, tokenAt_append hlong, ← hposition]
  have hnone : ¬ ∃ more data, parse (source ++ '\n' :: more) filename = .ok data := by
    intro h
    obtain ⟨more, data, hdata⟩ := h
    rw [parse_refused htokens hleads hstep] at hdata
    cases hdata
  refine ⟨s.length, hlt.le, ?_, ?_, iff_of_false hend hlt.ne, ?_, ?_, iff_of_false hnone hlt.ne⟩
  · apply following_take_iff hlt.le
    rw [htake, ← hposition, hplace]
  · rwa [htoken]
  · rw [htake]
    rw [← hs] at hleads
    exact exists_parse_append hleads
  · intro _ more
    rw [htoken, htake', ← he]
    exact parse_refused hst hleads hstep more

/-- If all tokens are taken but something is pending, the fault is at the end of the text. -/
theorem isFirstFault_of_pending
    (hleads : Progress.Leads {} ((tokenize source false).map Token.lexeme) state) (w : Wanted) :
    IsFirstFault source filename
      ⟨.unexpected w.describe (Token.endOf source).describe, filename,
        (Token.endOf source).position⟩ source.length := by
  have hmore : ∃ more data, parse (source ++ '\n' :: more) filename = .ok data :=
    exists_parse_append hleads
  refine ⟨?_, ?_, ?_, ?_, ?_, ?_⟩
  · apply following_take_iff le_rfl
    rw [List.take_length]
    rfl
  · rw [tokenAt_length]
    exact Or.inr ⟨by simp [Token.endOf], _, rfl⟩
  · exact iff_of_true ⟨_, rfl⟩ rfl
  · rwa [List.take_length]
  · intro h
    exact absurd h (Nat.lt_irrefl _)
  · exact iff_of_true hmore rfl

/-- Every error in a text is at the first place that no further text can repair, and it is at the
end of the text exactly if the text is incomplete. -/
theorem parse_error_isFirstFault {e : SourceError}
    (h : parse source filename = .error (.source e)) :
    ∃ o ≤ source.length, IsFirstFault source filename e o := by
  rw [parse_eq_run] at h
  rcases Progress.run_eq_error.mp h with
    ⟨before, token, after, state, why, htokens, hleads, hstep, he⟩ | ⟨state, hleads, -, he⟩
  · exact isFirstFault_of_refused htokens hleads hstep he.symm
  · cases he
    exact ⟨source.length, le_rfl, isFirstFault_of_pending hleads _⟩

/-- The closer of another family is refused where it stands. -/
theorem parse_error_isFirstFault_closer :
    parse "(a ]".toList = .error (.source ⟨.unexpected "\")\"".toList "\"]\"".toList,
      defaultFilename, ⟨1, 4⟩⟩) ∧
    ∃ o ≤ "(a ]".toList.length, IsFirstFault "(a ]".toList defaultFilename
      ⟨.unexpected "\")\"".toList "\"]\"".toList, defaultFilename, ⟨1, 4⟩⟩ o :=
  ⟨by decide +kernel, parse_error_isFirstFault (by decide +kernel)⟩

end SExpr
