import SExpr.Proofs.Reading.Progress
import SExpr.Proofs.Reading.Unambiguous

/-!
# What one lexeme does

Where a datum is needed, a lexeme begins a form, or else it ends the items of the innermost list.
Behind a dotted tail or an ellipsis nothing but the closer can stand. These are all the steps there
are, and each of them is said without the reader's verdicts.
-/
namespace SExpr

def Form.ofAtom? : Kind → Text → Option Form
  | .number, t => some (.number t)
  | .boolean, t => some (.boolean t)
  | .symbol, t => some (.symbol t)
  | _, _ => none

namespace Progress

variable {data : List Datum} {d list : Datum} {frames : List Frame} {b : Bracket}
  {read : List Datum} {k : Kind} {t : Text} {l : Kind × Text} {s s' : Progress}

def complete (data : List Datum) (d : Datum) : List Frame → Progress
  | [] => ⟨d :: data, .datum []⟩
  | .abbreviation a :: frames => complete data (.ofItems [.symbol a.symbol, d]) frames
  | .items b read :: frames => ⟨data, .datum (.items b (d :: read) :: frames)⟩
  | .tail b read :: frames => ⟨data, .closer b (.ofItems read.reverse d) frames⟩

/-- The lexemes that begin a form, and the progress they make. -/
inductive Begins (data : List Datum) (frames : List Frame) : Kind × Text → Progress → Prop
  | atom {k : Kind} {t : Text} {f : Form} : Form.ofAtom? k t = some f →
      Begins data frames (k, t) (complete data f.value frames)
  | abbreviation (a : Abbreviation) (t : Text) :
      Begins data frames (.abbreviation a, t) ⟨data, .datum (.abbreviation a :: frames)⟩
  | opener (b : Bracket) (t : Text) :
      Begins data frames (.opener b, t) ⟨data, .datum (.items b [] :: frames)⟩

/-- The lexemes that end the items of a list, and the progress they make. -/
inductive Ends (data : List Datum) (b : Bracket) (read : List Datum) (frames : List Frame) :
    Kind × Text → Progress → Prop
  | closer (t : Text) :
      Ends data b read frames (.closer b, t) (complete data (.ofItems read.reverse) frames)
  | dot (t : Text) : read ≠ [] →
      Ends data b read frames (.dot, t) ⟨data, .datum (.tail b read :: frames)⟩
  | ellipsis {t : Text} {n : Nat} : read ≠ [] → repeatCount t = .ok n →
      Ends data b read frames (.ellipsis, t)
        ⟨data, .closer b (.ofItems read.reverse (.ellipsis n)) frames⟩

theorem Begins.startsForm (h : Begins data frames l s) : l.1.startsForm = true := by
  cases h with
  | @atom k t f hf => cases k <;> first | rfl | simp [Form.ofAtom?] at hf
  | abbreviation a t => rfl
  | opener b t => rfl

def settle (data : List Datum) : Verdict → Except Refusal Progress
  | .more next => .ok ⟨data, next⟩
  | .done d => .ok ⟨d :: data, .datum []⟩
  | .refuse why _ => .error why

@[simp] theorem settle_more (data : List Datum) (next : Pending) :
    settle data (.more next) = .ok ⟨data, next⟩ := rfl

@[simp] theorem settle_refuse (data : List Datum) (why : Refusal) (taken : Bool) :
    settle data (.refuse why taken) = .error why := rfl

theorem step_eq_settle (s : Progress) (l : Kind × Text) :
    s.step l = settle s.data (s.pending.feed ⟨l.1, l.2, {}⟩) := by
  unfold step settle
  split <;> simp_all

@[simp] theorem settle_fill (data : List Datum) (d : Datum) (frames : List Frame) :
    settle data (Pending.fill d frames) = .ok (complete data d frames) := by
  induction frames generalizing d with
  | nil => rfl
  | cons frame frames ih =>
    cases frame with
    | abbreviation a => exact ih _
    | items b read => rfl
    | tail b read => rfl

theorem step_unknown : s.step (.unknown, t) = .error .unknownText := by
  rw [step_eq_settle]
  rfl

theorem step_startsForm (hk : k.startsForm = true) : step ⟨data, .datum frames⟩ (k, t) =
    settle data (Pending.start ⟨k, t, {}⟩ frames) := by
  rw [step_eq_settle]
  cases k <;> simp [Kind.startsForm] at hk <;>
    rcases frames with _ | ⟨_ | _ | _, frames⟩ <;> rfl

theorem start_of_atom {f : Form} (h : Form.ofAtom? k t = some f) :
    Pending.start ⟨k, t, {}⟩ frames = Pending.fill f.value frames := by
  cases k <;> simp only [Form.ofAtom?, Option.some.injEq, reduceCtorEq] at h <;> subst h <;>
    simp [Pending.start, Form.value]

theorem settle_start_of_begins (h : Begins data frames (k, t) s) :
    settle data (Pending.start ⟨k, t, {}⟩ frames) = .ok s := by
  cases h with
  | atom hf => rw [start_of_atom hf, settle_fill]
  | abbreviation a t => rfl
  | opener b t => rfl

theorem begins_of_settle_start (h : settle data (Pending.start ⟨k, t, {}⟩ frames) = .ok s) :
    Begins data frames (k, t) s := by
  cases hf : Form.ofAtom? k t with
  | some f =>
    rw [start_of_atom hf, settle_fill] at h
    obtain rfl := Except.ok.inj h
    exact .atom hf
  | none =>
    cases k with
    | abbreviation a =>
      obtain rfl := Except.ok.inj h
      exact .abbreviation a t
    | opener b =>
      obtain rfl := Except.ok.inj h
      exact .opener b t
    | number => cases hf
    | boolean => cases hf
    | symbol => cases hf
    | _ => cases h

theorem step_of_begins (h : Begins data frames l s) : step ⟨data, .datum frames⟩ l = .ok s := by
  obtain ⟨k, t⟩ := l
  rw [step_startsForm h.startsForm]
  exact settle_start_of_begins h

theorem step_of_ends (h : Ends data b read frames l s) :
    step ⟨data, .datum (.items b read :: frames)⟩ l = .ok s := by
  rw [step_eq_settle]
  cases h with
  | closer t => simp [Pending.feed, Pending.extend, Kind.isBlank]
  | dot t hread => simp [Pending.feed, Pending.extend, Kind.isBlank, hread]
  | ellipsis hread hn => simp [Pending.feed, Pending.extend, Kind.isBlank, hread, hn]

theorem ends_of_step (hk : k.isBlank = false) (hstarts : ¬ k.startsForm = true)
    (h : step ⟨data, .datum (.items b read :: frames)⟩ (k, t) = .ok s) :
    Ends data b read frames (k, t) s := by
  rw [step_eq_settle] at h
  cases k with
  | closer b' =>
    by_cases hb : b' = b
    · subst hb
      obtain rfl : complete data (.ofItems read.reverse) frames = s := by
        simpa [Pending.feed, Pending.extend, Kind.isBlank] using h
      exact .closer t
    · simp [Pending.feed, Pending.extend, Kind.isBlank, hb] at h
  | dot =>
    by_cases hread : read = []
    · simp [Pending.feed, Pending.extend, Kind.isBlank, hread] at h
    · obtain rfl : ⟨data, .datum (.tail b read :: frames)⟩ = s := by
        simpa [Pending.feed, Pending.extend, Kind.isBlank, hread] using h
      exact .dot t hread
  | ellipsis =>
    by_cases hread : read = []
    · simp [Pending.feed, Pending.extend, Kind.isBlank, hread] at h
    · cases hn : repeatCount t with
      | error e => simp [Pending.feed, Pending.extend, Kind.isBlank, hread, hn] at h
      | ok n =>
        obtain rfl : ⟨data, .closer b (.ofItems read.reverse (.ellipsis n)) frames⟩ = s := by
          simpa [Pending.feed, Pending.extend, Kind.isBlank, hread, hn] using h
        exact .ellipsis hread hn
  | whitespace => simp [Kind.isBlank] at hk
  | lineComment => simp [Kind.isBlank] at hk
  | unknown => simp [Pending.feed, Kind.isBlank] at h
  | endOfInput => simp [Pending.feed, Pending.extend, Kind.isBlank] at h
  | _ => simp [Kind.startsForm] at hstarts

theorem startsForm_of_step (hk : k.isBlank = false)
    (hframes : ∀ b read outer, frames ≠ .items b read :: outer)
    (h : step ⟨data, .datum frames⟩ (k, t) = .ok s) : k.startsForm = true := by
  by_contra hstarts
  rw [step_eq_settle] at h
  rcases frames with _ | ⟨_ | ⟨b, read⟩ | _, outer⟩
  case cons.items => exact hframes b read outer rfl
  all_goals
    cases k <;> simp [Kind.startsForm] at hstarts <;>
      simp_all [Pending.feed, Pending.start, Kind.isBlank]

/-- A lexeme that is taken either begins a form or ends the items of the innermost list. -/
theorem step_datum_iff (hk : l.1.isBlank = false) :
    step ⟨data, .datum frames⟩ l = .ok s ↔ Begins data frames l s ∨
      ∃ b read outer, frames = .items b read :: outer ∧ Ends data b read outer l s := by
  obtain ⟨k, t⟩ := l
  constructor
  · intro h
    by_cases hstarts : k.startsForm = true
    · rw [step_startsForm hstarts] at h
      exact Or.inl (begins_of_settle_start h)
    · by_cases hlist : ∃ b read outer, frames = .items b read :: outer
      · obtain ⟨b, read, outer, rfl⟩ := hlist
        exact Or.inr ⟨b, read, outer, rfl, ends_of_step hk hstarts h⟩
      · refine absurd (startsForm_of_step hk ?_ h) hstarts
        intro b read outer heq
        exact hlist ⟨b, read, outer, heq⟩
  · intro h
    rcases h with h | ⟨b, read, outer, rfl, h⟩
    · exact step_of_begins h
    · exact step_of_ends h

theorem step_closer_iff (hk : l.1.isBlank = false) :
    step ⟨data, .closer b list frames⟩ l = .ok s ↔
      l.1 = .closer b ∧ s = complete data list frames := by
  obtain ⟨k, t⟩ := l
  rw [step_eq_settle]
  by_cases hcloser : k = .closer b
  · subst hcloser
    simp [Pending.feed, Kind.isBlank, eq_comm]
  · by_cases hunknown : k = .unknown <;> simp_all [Pending.feed]

end Progress

end SExpr
