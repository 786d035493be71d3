import SExpr.Proofs.Reading.Frames
import SExpr.Reading.Descent

/-!
# Descent

Reading by loops and nested calls does the same as reading with frames. As many rounds of each loop
and as many calls in one another as there are tokens left, and one more, are always enough.
-/
namespace SExpr

variable {source filename : Text} {s s' ahead : TokenStream} {d : Datum} {b : Bracket}
  {read : List Datum} {e : ReadError} {p : Pending} {frame : Frame}

namespace TokenStream

theorem known_of_skipTrivia (h : s.skipTrivia filename = (.ok (), ahead)) :
    ahead.peek.1.kind ≠ .unknown := by
  fun_induction skipTrivia filename s with
  | case1 s token hblank ih => exact ih h
  | case2 => simp at h
  | case3 s token hblank hunknown =>
    obtain rfl : s.peek.2 = ahead := by simpa using h
    rwa [peek_peek]

theorem peek_of_skipTrivia (h : s.skipTrivia filename = (.ok (), ahead)) :
    ahead.peek.2 = ahead := by
  fun_induction skipTrivia filename s with
  | case1 s token hblank ih => exact ih h
  | case2 => simp at h
  | case3 s token hblank hunknown =>
    obtain rfl : s.peek.2 = ahead := by simpa using h
    rw [peek_peek]

theorem readAll_of_skipTrivia_error (h : s.skipTrivia filename = (.error e, ahead)) :
    s.readAll filename = (.error e, ahead) := by
  rw [readAll_eq, h]

theorem length_drain_lt (h : s.resume filename p = (.ok d, s')) :
    s'.drain.1.length < s.drain.1.length := by
  cases completes_resume h with
  | @done tokens q last _ hreads hdone =>
    have hmore : last.peek.1.kind ≠ .endOfInput := q.kind_ne_of_feed (by simp [hdone])
    have htaken := (hreads []).takes.drain_eq
    rw [htaken, drain_of_more hmore, List.length_append, List.length_cons]
    omega

theorem listTokens_of_end {withBlanks : Bool} (h : s.peek.1.kind = .endOfInput) :
    s.listTokens withBlanks = ([], s.peek.2) := by
  cases withBlanks <;> simp [listTokens, drain_of_end h, withoutBlanks]

theorem listTokens_of_more {withBlanks : Bool} (h : s.peek.1.kind ≠ .endOfInput) :
    s.listTokens withBlanks = (s.pop.2.listTokens withBlanks).map
      (if withBlanks || !s.peek.1.kind.isBlank then (s.peek.1 :: ·) else id) id := by
  rw [listTokens, drain_of_more h]
  cases withBlanks with
  | true => rfl
  | false =>
    refine Prod.ext ((withoutBlanks_cons _ _).trans ?_) rfl
    cases s.peek.1.kind.isBlank <;> rfl

end TokenStream

/-! ## Outcomes of a descent -/

namespace Descent

open TokenStream

variable {α β : Type} {x : Descent α} {f : α → Descent β} {a : α}
  {r : Except ReadError α × TokenStream} {r' : Except ReadError β × TokenStream}
  {n rounds calls : Nat}

/-- A descent has an outcome on a stream in a text, whatever was taken before. What it takes are the
tokens by which the stream is left shorter, and perhaps ends of the input. -/
structure Runs (source : Text) (x : Descent α) (s : TokenStream)
    (r : Except ReadError α × TokenStream) : Prop where
  standsIn : r.2.StandsIn source
  exists_taken : ∃ taken, (∀ before, x ⟨s, before⟩ = some (r.1, ⟨r.2, before ++ taken⟩)) ∧
    taken.filter (·.kind ≠ .endOfInput) ++ r.2.drain.1 = s.drain.1

theorem Runs.length_le (h : Runs source x s r) : r.2.drain.1.length ≤ s.drain.1.length := by
  obtain ⟨taken, -, htaken⟩ := h.exists_taken
  rw [← htaken, List.length_append]
  exact Nat.le_add_left _ _

theorem runs_pure (hs : s.StandsIn source) (a : α) : Runs source (pure a) s (.ok a, s) :=
  ⟨hs, [], fun before => by rw [List.append_nil]; rfl, rfl⟩

theorem runs_fail (hs : s.StandsIn source) (e : ReadError) :
    Runs source (fail e : Descent α) s (.error e, s) :=
  ⟨hs, [], fun before => by rw [List.append_nil]; rfl, rfl⟩

theorem runs_peek (hs : s.StandsIn source) : Runs source peek s (.ok s.peek.1, s.peek.2) := by
  refine ⟨hs.peek, [], fun before => by rw [List.append_nil]; rfl, ?_⟩
  exact congrArg Prod.fst s.drain_peek

theorem runs_pop (hs : s.StandsIn source) : Runs source pop s (.ok s.peek.1, s.pop.2) := by
  refine ⟨hs.pop, [s.peek.1], fun before => by rw [s.peek_fst]; rfl, ?_⟩
  by_cases hend : s.peek.1.kind = .endOfInput
  · rw [drain_of_end hend, hs.drain_pop_of_end hend]
    simp [hend]
  · rw [drain_of_more hend]
    simp [hend]

theorem runs_pop_peek (hs : s.StandsIn source) :
    Runs source pop s.peek.2 (.ok s.peek.1, s.pop.2) := by
  have hpop := runs_pop hs.peek
  rwa [peek_peek, pop_peek_snd] at hpop

theorem bind_ok {st st' : State} (h : x st = some (.ok a, st')) : (x >>= f) st = f a st' := by
  change (x st >>= fun p => ExceptT.bindCont f p.1 p.2) = f a st'
  rw [h]
  rfl

theorem bind_error {st st' : State} (h : x st = some (.error e, st')) :
    (x >>= f) st = some (.error e, st') := by
  change (x st >>= fun p => ExceptT.bindCont f p.1 p.2) = some (.error e, st')
  rw [h]
  rfl

theorem Runs.bind (h : Runs source x s (.ok a, s')) (h' : Runs source (f a) s' r') :
    Runs source (x >>= f) s r' := by
  obtain ⟨taken, hx, htaken⟩ := h.exists_taken
  obtain ⟨taken', hf, htaken'⟩ := h'.exists_taken
  refine ⟨h'.standsIn, taken ++ taken', fun before => ?_, ?_⟩
  · rw [bind_ok (hx before), hf, List.append_assoc]
  · rw [List.filter_append, List.append_assoc, htaken', htaken]

theorem Runs.bind_error (h : Runs source x s (.error e, s')) :
    Runs source (x >>= f) s (.error e, s') := by
  obtain ⟨taken, hx, htaken⟩ := h.exists_taken
  exact ⟨h.standsIn, taken, fun before => Descent.bind_error (hx before), htaken⟩

theorem Runs.map (h : Runs source x s r) (g : α → β) :
    Runs source (x >>= fun a => pure (g a)) s (r.map (·.map g) id) := by
  rcases r with ⟨e | a, s'⟩
  · exact h.bind_error
  · exact h.bind (runs_pure h.standsIn (g a))

/-! ## Loops on tokens -/

theorem runs_tokens (hs : s.StandsIn source) (withBlanks : Bool)
    (hrounds : s.drain.1.length < rounds) :
    Runs source (tokens withBlanks rounds) s ((s.listTokens withBlanks).map .ok id) := by
  induction rounds generalizing s with
  | zero => exact absurd hrounds (Nat.not_lt_zero _)
  | succ rounds ih =>
    rw [tokens]
    refine (runs_peek hs).bind ?_
    by_cases hend : s.peek.1.kind = .endOfInput
    · rw [if_pos hend, listTokens_of_end hend]
      exact runs_pure hs.peek []
    · rw [drain_of_more hend, List.length_cons] at hrounds
      have hrest := ih hs.pop (Nat.lt_of_succ_lt_succ hrounds)
      rw [if_neg hend, listTokens_of_more hend]
      refine (runs_pop_peek hs).bind (hrest.bind ?_)
      split
      · exact runs_pure hrest.standsIn _
      · exact runs_pure hrest.standsIn _

theorem runs_blanks (hs : s.StandsIn source) (filename : Text)
    (hrounds : s.drain.1.length < rounds) :
    Runs source (blanks filename rounds) s (s.skipTrivia filename) := by
  induction rounds generalizing s with
  | zero => exact absurd hrounds (Nat.not_lt_zero _)
  | succ rounds ih =>
    rw [blanks, skipTrivia.eq_def filename s]
    refine (runs_peek hs).bind ?_
    by_cases hblank : s.peek.1.kind.isBlank = true
    · have hknown : s.peek.1.kind ≠ .unknown := by
        intro hunknown
        simp [hunknown, Kind.isBlank] at hblank
      have hmore : s.peek.1.kind ≠ .endOfInput := by
        intro hend
        simp [hend, Kind.isBlank] at hblank
      rw [drain_of_more hmore, List.length_cons] at hrounds
      rw [if_pos (Or.inl hblank), dif_pos hblank]
      refine (runs_pop_peek hs).bind ?_
      rw [if_neg hknown]
      exact ih hs.pop (Nat.lt_of_succ_lt_succ hrounds)
    rw [dif_neg hblank]
    by_cases hunknown : s.peek.1.kind = .unknown
    · rw [if_pos (Or.inr hunknown), if_pos hunknown]
      refine (runs_pop_peek hs).bind ?_
      rw [if_pos hunknown]
      exact runs_fail hs.pop _
    · rw [if_neg (not_or.mpr ⟨hblank, hunknown⟩), if_neg hunknown]
      exact runs_pure hs.peek ()

/-- What does not depend on the blanks ahead, and fails where skipping them fails, is found behind
them. -/
theorem Runs.behind_blanks {f : Unit → Descent α}
    {result : TokenStream → Except ReadError α × TokenStream} (hs : s.StandsIn source)
    (hrounds : s.drain.1.length < rounds)
    (herror : ∀ e ahead, s.skipTrivia filename = (.error e, ahead) → result s = (.error e, ahead))
    (hsame : ∀ ahead, s.skipTrivia filename = (.ok (), ahead) → result ahead = result s)
    (h : ∀ ahead, s.skipTrivia filename = (.ok (), ahead) → ahead.StandsIn source →
      ahead.drain.1.length ≤ s.drain.1.length → Runs source (f ()) ahead (result ahead)) :
    Runs source (blanks filename rounds >>= f) s (result s) := by
  have hblanks := runs_blanks hs filename hrounds
  rcases hskip : s.skipTrivia filename with ⟨e | done, ahead⟩
  · rw [hskip] at hblanks
    rw [herror e ahead hskip]
    exact hblanks.bind_error
  · rw [hskip] at hblanks
    rw [← hsame ahead hskip]
    exact hblanks.bind (h ahead hskip hblanks.standsIn hblanks.length_le)

theorem Runs.of_blanks {f : Unit → Descent Datum} (hs : s.StandsIn source)
    (hrounds : s.drain.1.length < rounds)
    (h : ∀ ahead, s.skipTrivia filename = (.ok (), ahead) → ahead.StandsIn source →
      ahead.drain.1.length ≤ s.drain.1.length →
      Runs source (f ()) ahead (ahead.resume filename p)) :
    Runs source (blanks filename rounds >>= f) s (s.resume filename p) :=
  behind_blanks hs hrounds (fun _ _ hskip => resume_of_skipTrivia_error hskip p)
    (fun _ hskip => resume_skipTrivia hskip p) h

theorem Runs.within {x : Descent Datum} {f : Datum → Descent Datum}
    (h : Runs source x s' (s.readDatum filename))
    (hinner : Pending.Inner [frame] (.datum []) s.peek.1)
    (hf : ∀ (d : Datum) (last : TokenStream), s.readDatum filename = (.ok d, last.pop.2) →
      last.pop.2.StandsIn source →
      Runs source (f d) last.pop.2 (last.conclude filename (Pending.fill d [frame]))) :
    Runs source (x >>= f) s' (s.resume filename (.datum [frame])) := by
  rcases hread : s.readDatum filename with ⟨e | d, rest⟩
  · have honto : s.resume filename (.datum [frame]) = (.error e, rest) :=
      resume_onto_error hinner hread
    rw [hread] at h
    rw [honto]
    exact h.bind_error
  · obtain ⟨last, rfl, honto⟩ := resume_onto_ok hinner hread
    have honto : s.resume filename (.datum [frame]) = _ := honto
    rw [hread] at h
    rw [honto]
    exact h.bind (hf d last hread h.standsIn)

/-! ## Lists -/

theorem runs_closer (hs : s.StandsIn source) (hrounds : s.drain.1.length < rounds)
    (list : Datum) :
    Runs source (do blanks filename rounds; closer filename b; return list) s
      (s.resume filename (.closer b list [])) := by
  refine Runs.of_blanks hs hrounds fun ahead hskip hahead _ => ?_
  have hfeed : Pending.feed (.closer b list []) ahead.peek.1 =
      if ahead.peek.1.kind = .closer b then .done list
      else .refuse (.wanted (.closer b)) false := by
    simp [Pending.feed, Pending.fill, skipTrivia_ok hskip, known_of_skipTrivia hskip]
  rw [closer, bind_assoc]
  refine (runs_peek hahead).bind ?_
  by_cases hcloser : ahead.peek.1.kind = .closer b
  · rw [if_pos hcloser, bind_assoc]
    rw [if_pos hcloser] at hfeed
    rw [resume_of_done hfeed]
    exact (runs_pop_peek hahead).bind (runs_pure hahead.pop list)
  · rw [if_neg hcloser]
    rw [if_neg hcloser] at hfeed
    rw [resume_of_refuse hfeed]
    exact (runs_fail hahead.peek _).bind_error

theorem startsForm_of_not_endsItems {k : Kind} (hends : endsItems k = false)
    (hblank : k.isBlank = false) (hknown : k ≠ .unknown) : k.startsForm = true := by
  cases k <;> simp_all [endsItems, Kind.isBlank, Kind.startsForm]

/-- The calls that are nested in a list read data, as long as no more tokens are left than were
left in the list. -/
def ReadsWithin (source filename : Text) (datum : Descent Datum) (n : Nat) : Prop :=
  ∀ s : TokenStream, s.StandsIn source → s.drain.1.length ≤ n →
    Runs source datum s (s.readDatum filename)

variable {datum : Descent Datum} {more : Nat}

/-- Reading items goes on with what ends them. Each round takes at least one token. -/
theorem runs_items {f : List Datum → Descent Datum}
    (hdatum : ReadsWithin source filename datum n) (hn : n < more) (hs : s.StandsIn source)
    (hlength : s.drain.1.length ≤ n) (hrounds : s.drain.1.length < rounds)
    (hblank : s.peek.1.kind.isBlank = false) (hknown : s.peek.1.kind ≠ .unknown)
    (hf : ∀ read s', s'.StandsIn source → s'.drain.1.length ≤ n →
      endsItems s'.peek.1.kind = true →
      Runs source (f read) s' (s'.resume filename (.datum [.items b read]))) :
    Runs source (items (item filename datum more) rounds read >>= f) s
      (s.resume filename (.datum [.items b read])) := by
  induction rounds generalizing s read with
  | zero => exact absurd hrounds (Nat.not_lt_zero _)
  | succ rounds ih =>
    rw [items, bind_assoc]
    refine (runs_peek hs).bind ?_
    cases hends : endsItems s.peek.1.kind with
    | true =>
      rw [if_pos rfl, pure_bind, ← resume_peek]
      refine hf read _ hs.peek ?_ ?_
      · rwa [drain_peek]
      · rwa [peek_peek]
    | false =>
      have hinner : Pending.Inner [.items b read] (.datum []) s.peek.1 :=
        Or.inr (Or.inr (startsForm_of_not_endsItems hends hblank hknown))
      have hruns : Runs source datum s.peek.2 (s.readDatum filename) := by
        rw [readDatum, ← resume_peek]
        exact hdatum _ hs.peek (by rwa [drain_peek])
      rw [if_neg Bool.false_ne_true]
      simp only [item, bind_assoc, pure_bind]
      refine hruns.within hinner fun d last hread hlast => ?_
      have hless := length_drain_lt hread
      refine .of_blanks hlast (by omega) fun ahead hskip hahead hle => ?_
      exact ih hahead (by omega) (by omega) (skipTrivia_ok hskip) (known_of_skipTrivia hskip)

theorem runs_tail (hdatum : ReadsWithin source filename datum n) (hn : n < rounds)
    (hs : s.StandsIn source) (hlength : s.drain.1.length ≤ n)
    (hends : endsItems s.peek.1.kind = true) :
    Runs source (do
        let ending ← tail filename datum read
        blanks filename rounds
        closer filename b
        return .ofItems read.reverse ending) s
      (s.resume filename (.datum [.items b read])) := by
  have hleft : s.pop.2.drain.1.length ≤ n := (runs_pop hs).length_le.trans hlength
  rw [tail, bind_assoc]
  refine (runs_peek hs).bind ?_
  by_cases hmore : s.peek.1.kind = .dot ∨ s.peek.1.kind = .ellipsis
  · rw [if_pos hmore]
    by_cases hread : read = []
    · have hfeed : Pending.feed (.datum [.items b read]) s.peek.1 =
          .refuse (.wanted .expression) false := by
        rcases hmore with hk | hk <;> simp [Pending.feed, Pending.extend, hk, hread, Kind.isBlank]
      rw [if_pos hread, resume_of_refuse hfeed]
      exact (runs_fail hs.peek _).bind_error
    rw [if_neg hread, bind_assoc]
    refine (runs_pop_peek hs).bind ?_
    rcases hmore with hk | hk
    · have hfeed : Pending.feed (.datum [.items b read]) s.peek.1 =
          .more (.datum [.tail b read]) := by
        simp [Pending.feed, Pending.extend, hk, hread, Kind.isBlank]
      have hinner : Pending.Inner [.tail b read] (.datum []) s.pop.2.peek.1 :=
        Or.inr (Or.inl (by simp))
      rw [if_pos hk, resume_of_more hfeed]
      refine (hdatum _ hs.pop hleft).within hinner fun d last htail hlast => ?_
      have hless := length_drain_lt htail
      exact runs_closer hlast (by omega) _
    · have hdot : s.peek.1.kind ≠ .dot := by simp [hk]
      rw [if_neg hdot]
      cases hcount : repeatCount s.peek.1.text with
      | error e =>
        have hfeed : Pending.feed (.datum [.items b read]) s.peek.1 = .refuse (.count e) true := by
          simp [Pending.feed, Pending.extend, hk, hread, hcount, Kind.isBlank]
        rw [resume_of_refuse hfeed]
        exact (runs_fail hs.pop _).bind_error
      | ok m =>
        have hfeed : Pending.feed (.datum [.items b read]) s.peek.1 =
            .more (.closer b (.ofItems read.reverse (.ellipsis m)) []) := by
          simp [Pending.feed, Pending.extend, hk, hread, hcount, Kind.isBlank]
        rw [resume_of_more hfeed]
        exact (runs_pure hs.pop _).bind (runs_closer hs.pop (hleft.trans_lt hn) _)
  · -- nothing but the closer is needed then
    have hfeed : Pending.feed (.datum [.items b read]) s.peek.1 =
        Pending.feed (.closer b (.ofItems read.reverse) []) s.peek.1 := by
      cases hk : s.peek.1.kind <;> simp [hk, endsItems] at hends hmore <;>
        simp [Pending.feed, Pending.extend, hk, Kind.isBlank]
    have hrounds : s.peek.2.drain.1.length < rounds := by
      rw [drain_peek]
      exact hlength.trans_lt hn
    rw [if_neg hmore, pure_bind, resume_eq_conclude, hfeed, ← resume_eq_conclude, ← resume_peek]
    exact runs_closer hs.peek hrounds _

theorem runs_list (hdatum : ReadsWithin source filename datum n) (hn : n < rounds)
    (hs : s.StandsIn source) (hlength : s.drain.1.length ≤ n) (b : Bracket) :
    Runs source (list filename datum rounds b) s
      (s.resume filename (.datum [.items b []])) := by
  rw [list]
  refine .of_blanks hs (hlength.trans_lt hn) fun ahead hskip hahead hle => ?_
  refine (runs_peek hahead).bind ?_
  by_cases hcloser : ahead.peek.1.kind = .closer b
  · have hfeed : Pending.feed (.datum [.items b []]) ahead.peek.1 = .done .nil := by
      simp [Pending.feed, Pending.extend, Pending.fill, hcloser, Kind.isBlank, Datum.ofItems]
    rw [if_pos hcloser, resume_of_done hfeed]
    exact (runs_pop_peek hahead).bind (runs_pure hahead.pop _)
  · have hleft : ahead.peek.2.drain.1.length ≤ n := by
      rw [drain_peek]
      exact hle.trans hlength
    rw [if_neg hcloser, ← resume_peek]
    refine runs_items hdatum hn hahead.peek hleft (hleft.trans_lt hn) ?_ ?_
      fun read s' hs' hlength' hends => runs_tail hdatum hn hs' hlength' hends
    · rw [peek_peek]
      exact skipTrivia_ok hskip
    · rw [peek_peek]
      exact known_of_skipTrivia hskip

/-! ## Data -/

/-- As many calls as there are tokens left, and one more, are enough to read a datum. -/
theorem runs_datum (hs : s.StandsIn source) (hrounds : s.drain.1.length < rounds)
    (hcalls : s.drain.1.length < calls) :
    Runs source (Descent.datum filename rounds calls) s (s.readDatum filename) := by
  induction calls generalizing s with
  | zero => exact absurd hcalls (Nat.not_lt_zero _)
  | succ calls ih =>
    rw [Descent.datum, readDatum]
    refine .of_blanks hs hrounds fun ahead hskip hahead hle => ?_
    have hblank := skipTrivia_ok hskip
    have hknown := known_of_skipTrivia hskip
    refine (runs_pop hahead).bind ?_
    have hdone {d : Datum} (hfeed : Pending.feed (.datum []) ahead.peek.1 = .done d) :
        Runs source (pure d) ahead.pop.2 (ahead.resume filename (.datum [])) := by
      rw [resume_of_done hfeed]
      exact runs_pure hahead.pop d
    have hrefuse (hfeed : Pending.feed (.datum []) ahead.peek.1 =
          .refuse (.wanted .expression) true) :
        Runs source (fail ((Refusal.wanted .expression).error filename ahead.peek.1)) ahead.pop.2
          (ahead.resume filename (.datum [])) := by
      rw [resume_of_refuse hfeed]
      exact runs_fail hahead.pop _
    have hless (hmore : ahead.peek.1.kind ≠ .endOfInput) :
        ahead.pop.2.drain.1.length < calls ∧ ahead.pop.2.drain.1.length < rounds := by
      rw [drain_of_more hmore, List.length_cons] at hle
      omega
    cases hk : ahead.peek.1.kind with
    | number => exact hdone (by simp [Pending.feed, Pending.start, Pending.fill, hk, Kind.isBlank])
    | boolean =>
      exact hdone (by simp [Pending.feed, Pending.start, Pending.fill, hk, Kind.isBlank])
    | symbol => exact hdone (by simp [Pending.feed, Pending.start, Pending.fill, hk, Kind.isBlank])
    | abbreviation a =>
      have hfeed : Pending.feed (.datum []) ahead.peek.1 = .more (.datum [.abbreviation a]) := by
        simp [Pending.feed, Pending.start, hk, Kind.isBlank]
      have hinner : Pending.Inner [.abbreviation a] (.datum []) ahead.pop.2.peek.1 :=
        Or.inr (Or.inl (by simp))
      obtain ⟨hcalls, hrounds⟩ := hless (by simp [hk])
      rw [resume_of_more hfeed]
      exact (ih hahead.pop hrounds hcalls).within hinner fun d last _ hlast => runs_pure hlast _
    | opener b =>
      have hfeed : Pending.feed (.datum []) ahead.peek.1 = .more (.datum [.items b []]) := by
        simp [Pending.feed, Pending.start, hk, Kind.isBlank]
      obtain ⟨hcalls, hrounds⟩ := hless (by simp [hk])
      rw [resume_of_more hfeed]
      exact runs_list (fun s hs hle => ih hs (hle.trans_lt hrounds) (hle.trans_lt hcalls)) hrounds
        hahead.pop le_rfl b
    | whitespace => simp [hk, Kind.isBlank] at hblank
    | lineComment => simp [hk, Kind.isBlank] at hblank
    | unknown => exact absurd hk hknown
    | _ => exact hrefuse (by simp [Pending.feed, Pending.start, hk, Kind.isBlank])

theorem runs_listAfter (hs : s.StandsIn source) (hrounds : s.drain.1.length < rounds)
    (hcalls : s.drain.1.length < calls) (opener : Kind) :
    Runs source (listAfter filename rounds calls opener) s (s.readList filename opener) := by
  cases opener with
  | opener b =>
    exact runs_list (fun s hs hle => runs_datum hs (hle.trans_lt hrounds) (hle.trans_lt hcalls))
      hrounds hs le_rfl b
  | _ => exact runs_fail hs _

theorem runs_dataFrom (hdatum : ReadsWithin source filename datum n) (hn : n < more)
    (hs : s.StandsIn source) (hlength : s.drain.1.length ≤ n)
    (hrounds : s.drain.1.length < rounds) (hskip : s.skipTrivia filename = (.ok (), s)) :
    Runs source (dataFrom (item filename datum more) rounds) s (s.readAll filename) := by
  induction rounds generalizing s with
  | zero => exact absurd hrounds (Nat.not_lt_zero _)
  | succ rounds ih =>
    have hpeek := runs_peek hs
    rw [peek_of_skipTrivia hskip] at hpeek
    rw [dataFrom, readAll_eq, hskip]
    refine hpeek.bind ?_
    by_cases hend : s.peek.1.kind = .endOfInput
    · simp only [hend, if_true]
      exact runs_pure hs []
    simp only [hend, if_false, item, bind_assoc, pure_bind]
    have hruns := hdatum s hs hlength
    rcases hread : s.readDatum filename with ⟨e | d, rest⟩
    · rw [hread] at hruns
      exact hruns.bind_error
    rw [hread] at hruns
    have hless := length_drain_lt hread
    refine hruns.bind ?_
    rw [← bind_assoc]
    refine Runs.map (r := rest.readAll filename) ?_ (d :: ·)
    refine .behind_blanks hruns.standsIn (by omega)
      (fun _ _ hskip => readAll_of_skipTrivia_error hskip) (fun _ hskip => readAll_skipTrivia hskip)
      fun ahead hskip hahead hle => ?_
    exact ih hahead (by omega) (by omega) (skipTrivia_skipTrivia hskip)

theorem runs_all (hs : s.StandsIn source) (hrounds : s.drain.1.length < rounds)
    (hcalls : s.drain.1.length < calls) :
    Runs source (all filename rounds calls) s (s.readAll filename) := by
  rw [all]
  refine .behind_blanks hs hrounds (fun _ _ hskip => readAll_of_skipTrivia_error hskip)
    (fun _ hskip => readAll_skipTrivia hskip) fun ahead hskip hahead hle => ?_
  exact runs_dataFrom
    (fun s hs hle => runs_datum hs (hle.trans_lt hrounds) (hle.trans_lt hcalls)) hrounds hahead hle
    (hle.trans_lt hrounds) (skipTrivia_skipTrivia hskip)

end Descent

end SExpr
