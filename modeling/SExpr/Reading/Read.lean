import SExpr.Reading.Pending
import SExpr.TokenStream

/-!
# Reading data from a token stream

Reading takes tokens from a stream until a datum is complete. It answers with the datum or an error
together with the stream that is left, in which a token that was refused where it stands is still
the next one. Every datum takes at least one token, so reading all data of a text ends.

What is unfinished is kept as a list of frames, so reading never fails for the depth of the data.
That takes for granted that recursive calls, one for each datum within a datum, always have room.
`parseWithin` says what a limit on these calls changes.
-/
namespace SExpr.TokenStream

/-- Reads on from what is pending, with no limit on the frames around it. -/
def resume (filename : Text) (p : Pending) (s : TokenStream) :
    Except ReadError Datum × TokenStream :=
  match _h : p.feed s.peek.1 with
  | .more next => s.pop.2.resume filename next
  | .done d => (.ok d, s.pop.2)
  | .refuse why taken =>
    (.error (why.error filename s.peek.1), if taken then s.pop.2 else s.peek.2)
termination_by s.remaining
decreasing_by
  refine remaining_pop_lt fun hend => ?_
  obtain ⟨why, taken, hr⟩ := p.feed_endOfInput (s.peek_fst ▸ hend)
  simp [hr] at _h

def readDatum (filename : Text) (s : TokenStream) : Except ReadError Datum × TokenStream :=
  s.resume filename (.datum [])

/-- Reads the rest of a list after an opener of the given kind. -/
def readList (filename : Text) (opener : Kind) (s : TokenStream) :
    Except ReadError Datum × TokenStream :=
  match opener with
  | .opener b => s.resume filename (.datum [.items b []])
  | k => (.error (.notAnOpener k), s)

/-- Takes the blanks ahead. Unknown text is taken too, and is an error. -/
def skipTrivia (filename : Text) (s : TokenStream) : Except ReadError Unit × TokenStream :=
  let token := s.peek.1
  if _h : token.kind.isBlank then s.pop.2.skipTrivia filename
  else if token.kind = .unknown then
    (.error (Refusal.unknownText.error filename token), s.pop.2)
  else (.ok (), s.peek.2)
termination_by s.remaining
decreasing_by
  exact remaining_pop_lt fun hend => by simp [token, s.peek_fst, hend, Kind.isBlank] at _h

/-- Takes the next token if it is of the given kind, and refuses it where it stands if not. -/
def expect (filename : Text) (k : Kind) (expected : Text) (s : TokenStream) :
    Except ReadError Token × TokenStream :=
  let token := s.peek.1
  if token.kind = k then (.ok token, s.pop.2)
  else
    (.error (.source ⟨.unexpected expected token.describe, filename, token.position⟩), s.peek.2)

theorem remaining_peek_le (s : TokenStream) : s.peek.2.remaining ≤ s.remaining := by
  obtain ⟨cursor, _ | token⟩ := s
  · by_cases h : cursor.scan.1.kind = .endOfInput
    · simp [peek, remaining, h, Cursor.length_ahead_scan_le]
    · have := Cursor.length_ahead_scan_lt h
      simp only [peek, remaining, h, if_false]
      omega
  · exact Nat.le_refl _

theorem remaining_pop_le (s : TokenStream) : s.pop.2.remaining ≤ s.remaining := by
  by_cases h : s.pop.1.kind = .endOfInput
  · obtain ⟨cursor, _ | token⟩ := s
    · exact Cursor.length_ahead_scan_le cursor
    · simp [pop, remaining]
  · exact Nat.le_of_lt (remaining_pop_lt h)

theorem remaining_skipTrivia_le (filename : Text) (s : TokenStream) :
    (s.skipTrivia filename).2.remaining ≤ s.remaining := by
  fun_induction skipTrivia filename s with
  | case1 s token h ih => exact Nat.le_trans ih s.remaining_pop_le
  | case2 s token => exact s.remaining_pop_le
  | case3 s token => exact s.remaining_peek_le

theorem remaining_resume_lt {filename : Text} {p : Pending} {s : TokenStream} {d : Datum}
    (h : (s.resume filename p).1 = .ok d) : (s.resume filename p).2.remaining < s.remaining := by
  fun_induction resume filename p s with
  | case1 p s next _ ih => exact Nat.lt_of_lt_of_le (ih h) s.remaining_pop_le
  | case2 p s d hdone =>
    refine remaining_pop_lt fun hend => ?_
    obtain ⟨why, taken, hr⟩ := p.feed_endOfInput (s.peek_fst ▸ hend)
    simp [hr] at hdone
  | case3 => simp at h

def readAll (filename : Text) (s : TokenStream) : Except ReadError (List Datum) × TokenStream :=
  match _hskip : s.skipTrivia filename with
  | (.error e, ahead) => (.error e, ahead)
  | (.ok (), ahead) =>
    if ahead.peek.1.kind = .endOfInput then (.ok [], ahead)
    else
      match _hread : ahead.readDatum filename with
      | (.error e, rest) => (.error e, rest)
      | (.ok d, rest) =>
        match rest.readAll filename with
        | (.error e, rest) => (.error e, rest)
        | (.ok ds, rest) => (.ok (d :: ds), rest)
termination_by s.remaining
decreasing_by
  have hle := s.remaining_skipTrivia_le filename
  have hlt := remaining_resume_lt (congrArg Prod.fst _hread)
  rw [_hskip] at hle
  rw [show ahead.resume filename (.datum []) = _ from _hread] at hlt
  exact Nat.lt_of_lt_of_le hlt hle

end SExpr.TokenStream

namespace SExpr

/-- The data of a source text, nested however deeply. -/
def parse (source : Text) (filename : Text := defaultFilename) : Except ReadError (List Datum) :=
  ((TokenStream.ofText source).readAll filename).1

end SExpr
