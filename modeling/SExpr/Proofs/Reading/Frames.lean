import SExpr.Proofs.Reading.Schedule

/-!
# Frames around what is read

A datum within others is read as it is read alone, and then handed to the frames around it. Only
where a datum may be the next item of a list, a token may end the list in its stead.
-/
namespace SExpr

variable {filename : Text} {s s' : TokenStream} {d : Datum} {e : ReadError} {p next : Pending}
  {token : Token} {outer : List Frame}

namespace Pending

def onto (outer : List Frame) : Pending → Pending
  | datum frames => datum (frames ++ outer)
  | closer b list frames => closer b list (frames ++ outer)

end Pending

def Verdict.onto (outer : List Frame) : Verdict → Verdict
  | more next => more (next.onto outer)
  | done d => Pending.fill d outer
  | refuse why taken => refuse why taken

namespace Pending

theorem fill_append (d : Datum) (frames outer : List Frame) :
    fill d (frames ++ outer) = (fill d frames).onto outer := by
  induction frames generalizing d with
  | nil => rfl
  | cons frame frames ih =>
    cases frame with
    | abbreviation a => exact ih _
    | items b read => rfl
    | tail b read => rfl

theorem start_append (token : Token) (frames outer : List Frame) :
    start token (frames ++ outer) = (start token frames).onto outer := by
  cases hk : token.kind <;> simp [start, hk, fill_append, Verdict.onto, onto]

theorem extend_append (token : Token) (b : Bracket) (read : List Datum)
    (frames outer : List Frame) :
    extend token b read (frames ++ outer) = (extend token b read frames).onto outer := by
  unfold extend
  split
  · split_ifs
    · exact fill_append _ _ _
    · rfl
  · rfl
  · split_ifs <;> rfl
  · split_ifs
    · rfl
    · split <;> rfl
  · exact start_append token (.items b read :: frames) outer

/-- More frames do not matter to what is pending, except that the items of a list may end where a
datum could start. -/
def Inner (outer : List Frame) (p : Pending) (token : Token) : Prop :=
  p ≠ .datum [] ∨ (∀ b read frames, outer ≠ .items b read :: frames) ∨
    token.kind.startsForm = true

theorem feed_onto (h : p.Inner outer token) :
    (p.onto outer).feed token = (p.feed token).onto outer := by
  by_cases hblank : token.kind.isBlank = true
  · rw [feed_blank _ hblank, feed_blank _ hblank]
    rfl
  by_cases hunknown : token.kind = .unknown
  · rw [feed_unknown _ hunknown, feed_unknown _ hunknown]
    rfl
  simp only [feed, hblank, hunknown, Bool.false_eq_true, if_false]
  rcases p with (_ | ⟨_ | ⟨b, read⟩ | ⟨b, read⟩, frames⟩) | ⟨b, list, frames⟩
  · rcases outer with _ | ⟨_ | ⟨b, read⟩ | _, outer⟩
    · exact start_append token [] []
    · exact start_append token [] _
    · have hstarts : token.kind.startsForm = true := by simpa [Inner] using h
      cases hk : token.kind <;> simp [hk, Kind.startsForm] at hstarts <;>
        simp [onto, extend, hk, ← start_append]
    · exact start_append token [] _
  · exact start_append token (_ :: frames) outer
  · exact extend_append token b read frames outer
  · exact start_append token (_ :: frames) outer
  · simp only [onto]
    split_ifs
    · exact fill_append _ _ _
    · rfl

theorem Inner.of_feed (h : p.Inner outer token) (hfeed : p.feed token = .more next)
    (token' : Token) : next.Inner outer token' := by
  by_cases hblank : token.kind.isBlank = true
  · rw [p.feed_blank hblank] at hfeed
    obtain rfl := Verdict.more.inj hfeed
    rcases h with h | h | h
    · exact Or.inl h
    · exact Or.inr (Or.inl h)
    · rw [Kind.isBlank_of_startsForm h] at hblank
      cases hblank
  · left
    rintro rfl
    exact p.feed_ne_more_nil (Bool.eq_false_iff.mpr hblank) hfeed

end Pending

namespace TokenStream

def conclude (filename : Text) (s : TokenStream) : Verdict → Except ReadError Datum × TokenStream
  | .more next => s.pop.2.resume filename next
  | .done d => (.ok d, s.pop.2)
  | .refuse why taken =>
    (.error (why.error filename s.peek.1), if taken then s.pop.2 else s.peek.2)

theorem resume_eq_conclude (s : TokenStream) (filename : Text) (p : Pending) :
    s.resume filename p = s.conclude filename (p.feed s.peek.1) := by
  cases h : p.feed s.peek.1 with
  | more next => exact resume_of_more h
  | done d => exact resume_of_done h
  | refuse why taken => exact resume_of_refuse h

/-- Within more frames an error is the same, and a datum is handed to them. -/
theorem resume_onto (filename : Text) (hinner : p.Inner outer s.peek.1) :
    match s.resume filename p with
    | (.error e, s') => s.resume filename (p.onto outer) = (.error e, s')
    | (.ok d, s') => ∃ last : TokenStream, last.pop.2 = s' ∧
        s.resume filename (p.onto outer) = last.conclude filename (Pending.fill d outer) := by
  fun_induction resume filename p s with
  | case1 p s next hfeed ih =>
    rw [resume_of_more ((Pending.feed_onto hinner).trans (congrArg _ hfeed))]
    exact ih (hinner.of_feed hfeed _)
  | case2 p s d hfeed =>
    refine ⟨s, rfl, ?_⟩
    rw [resume_eq_conclude, Pending.feed_onto hinner, hfeed]
    rfl
  | case3 p s why taken hfeed =>
    exact resume_of_refuse ((Pending.feed_onto hinner).trans (congrArg _ hfeed))

theorem resume_onto_error (hinner : p.Inner outer s.peek.1)
    (h : s.resume filename p = (.error e, s')) :
    s.resume filename (p.onto outer) = (.error e, s') := by
  have honto := resume_onto filename hinner
  rwa [h] at honto

theorem resume_onto_ok (hinner : p.Inner outer s.peek.1)
    (h : s.resume filename p = (.ok d, s')) : ∃ last : TokenStream, last.pop.2 = s' ∧
      s.resume filename (p.onto outer) = last.conclude filename (Pending.fill d outer) := by
  have honto := resume_onto filename hinner
  rwa [h] at honto

end TokenStream

end SExpr
