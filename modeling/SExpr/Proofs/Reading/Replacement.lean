import SExpr.Proofs.Datum.Equality
import SExpr.Proofs.Reading.Accepted
import SExpr.Proofs.Stream.Seam

/-!
# Replacing an expression by an equal one

Where a datum is needed, the lexemes of a form bring the reading to the same place as those of any
other form with an equal value, and elsewhere no form can stand. From there on the two readings take
the same lexemes, and what they have read so far stays equal. So an expression may be replaced by an
equal one in every text, however its lines before and after go on.
-/
namespace SExpr

variable {data data' : List Datum} {d d' list list' : Datum} {frames frames' : List Frame}
  {b : Bracket} {read read' : List Datum} {l : Kind × Text} {L : List (Kind × Text)}
  {s s' s₁ : Progress} {source source' filename : Text}

/-! ## Readings of equal data -/

/-- Frames that wait for the same and hold equal items. -/
inductive Frame.Same : Frame → Frame → Prop
  | abbreviation (a : Abbreviation) : Same (.abbreviation a) (.abbreviation a)
  | items (b : Bracket) {read read' : List Datum} :
      Datum.SameItems read read' → Same (.items b read) (.items b read')
  | tail (b : Bracket) {read read' : List Datum} :
      Datum.SameItems read read' → Same (.tail b read) (.tail b read')

/-- Equal frames, innermost first. -/
abbrev SameFrames : List Frame → List Frame → Prop :=
  List.Forall₂ Frame.Same

/-- What is pending is the same but for equal data. -/
inductive Pending.Same : Pending → Pending → Prop
  | datum {frames frames' : List Frame} :
      SameFrames frames frames' → Same (.datum frames) (.datum frames')
  | closer (b : Bracket) {list list' : Datum} {frames frames' : List Frame} :
      list.sameValue list' = true → SameFrames frames frames' →
      Same (.closer b list frames) (.closer b list' frames')

namespace Progress

/-- The same progress but for equal data. -/
inductive Same : Progress → Progress → Prop
  | mk {data data' : List Datum} {p p' : Pending} :
      Datum.SameItems data data' → p.Same p' → Same ⟨data, p⟩ ⟨data', p'⟩

theorem same_complete (hdata : Datum.SameItems data data') (hd : d.sameValue d' = true)
    (hframes : SameFrames frames frames') :
    Same (complete data d frames) (complete data' d' frames') := by
  induction hframes generalizing d d' with
  | nil => exact ⟨.cons hd hdata, .datum .nil⟩
  | cons hframe hframes ih =>
    cases hframe with
    | abbreviation a =>
      apply ih
      exact Datum.sameValue_ofItems (.cons (by simp [Datum.sameValue]) (.cons hd .nil)) rfl
    | items b hread => exact ⟨hdata, .datum (.cons (.items b (.cons hd hread)) hframes)⟩
    | tail b hread => exact ⟨hdata, .closer b (Datum.sameValue_ofItems hread.reverse hd) hframes⟩

theorem sameValue_ofAtom? {k : Kind} {t : Text} {f : Form} (h : Form.ofAtom? k t = some f) :
    f.value.sameValue f.value = true := by
  cases k <;> simp only [Form.ofAtom?, Option.some.injEq, reduceCtorEq] at h <;> subst h
  case number => exact Binary64.sameValue_self (Binary64.ofDecimal_ne_nan _)
  all_goals simp [Form.value, Datum.sameValue]

theorem Begins.exists_same (h : Begins data frames l s) (hdata : Datum.SameItems data data')
    (hframes : SameFrames frames frames') : ∃ s', Begins data' frames' l s' ∧ s.Same s' := by
  cases h with
  | atom hf => exact ⟨_, .atom hf, same_complete hdata (sameValue_ofAtom? hf) hframes⟩
  | abbreviation a t =>
    exact ⟨_, .abbreviation a t, hdata, .datum (.cons (.abbreviation a) hframes)⟩
  | opener b t => exact ⟨_, .opener b t, hdata, .datum (.cons (.items b .nil) hframes)⟩

theorem Ends.exists_same (h : Ends data b read frames l s) (hdata : Datum.SameItems data data')
    (hread : Datum.SameItems read read') (hframes : SameFrames frames frames') :
    ∃ s', Ends data' b read' frames' l s' ∧ s.Same s' := by
  have hne : read ≠ [] → read' ≠ [] := by
    intro hne heq
    rw [heq] at hread
    exact hne (List.forall₂_nil_right_iff.mp hread)
  cases h with
  | closer t =>
    exact ⟨_, .closer t, same_complete hdata (Datum.sameValue_ofItems hread.reverse rfl) hframes⟩
  | dot t hread₀ => exact ⟨_, .dot t (hne hread₀), hdata, .datum (.cons (.tail b hread) hframes)⟩
  | ellipsis hread₀ hn =>
    refine ⟨_, .ellipsis (hne hread₀) hn, hdata, .closer b ?_ hframes⟩
    exact Datum.sameValue_ofItems hread.reverse (by simp [Datum.sameValue])

/-- A lexeme that is taken is taken with equal data too, and the data stay equal. -/
theorem Same.step (hsame : s.Same s') (hl : l.1.isBlank = false) (h : s.step l = .ok s₁) :
    ∃ s₁', s'.step l = .ok s₁' ∧ s₁.Same s₁' := by
  obtain ⟨hdata, hpending⟩ := hsame
  cases hpending with
  | datum hframes =>
    rcases (step_datum_iff hl).mp h with hb | ⟨b, read, outer, rfl, he⟩
    · obtain ⟨s₁', hb', hsame⟩ := hb.exists_same hdata hframes
      exact ⟨s₁', step_of_begins hb', hsame⟩
    · cases hframes with
      | cons hframe houter =>
        cases hframe with
        | items b hread =>
          obtain ⟨s₁', he', hsame⟩ := he.exists_same hdata hread houter
          exact ⟨s₁', step_of_ends he', hsame⟩
  | closer b hlist hframes =>
    obtain ⟨hk, rfl⟩ := (step_closer_iff hl).mp h
    exact ⟨_, (step_closer_iff hl).mpr ⟨hk, rfl⟩, same_complete hdata hlist hframes⟩

theorem Same.leads (hsame : s.Same s') (hL : ∀ l ∈ L, l.1.isBlank = false) (h : s.Leads L s₁) :
    ∃ s₁', s'.Leads L s₁' ∧ s₁.Same s₁' := by
  induction L generalizing s s' with
  | nil =>
    obtain rfl := leads_nil.mp h
    exact ⟨s', leads_nil.mpr rfl, hsame⟩
  | cons l L ih =>
    obtain ⟨hl, hL⟩ := List.forall_mem_cons.mp hL
    obtain ⟨s₂, hstep, hleads⟩ := leads_cons.mp h
    obtain ⟨s₂', hstep', hsame₂⟩ := hsame.step hl hstep
    obtain ⟨s₁', hleads', hsame₁⟩ := ih hsame₂ hL hleads
    exact ⟨s₁', leads_cons.mpr ⟨s₂', hstep', hleads'⟩, hsame₁⟩

theorem Same.exists_of_nil (h : Same ⟨data, .datum []⟩ s) :
    ∃ data', s = ⟨data', .datum []⟩ ∧ Datum.SameItems data data' := by
  cases h with
  | mk hdata hpending =>
    cases hpending with
    | datum hframes =>
      obtain rfl := List.forall₂_nil_left_iff.mp hframes
      exact ⟨_, rfl, hdata⟩

/-! ## An expression within a text -/

/-- A form is read where a datum is needed, and nowhere else. -/
theorem leads_lexemes_append_iff (f : Form) (hcounts : CountsRead f.lexemes) :
    s.Leads (f.lexemes ++ L) s' ↔
      ∃ frames, s.pending = .datum frames ∧ (complete s.data f.value frames).Leads L s' := by
  obtain ⟨data, frames | ⟨b, list, frames⟩⟩ := s
  · have hf := f.leads_complete data frames hcounts
    rw [leads_append]
    constructor
    · intro h
      obtain ⟨s₁, hs₁, hrest⟩ := h
      obtain rfl := hs₁.unique hf
      exact ⟨frames, rfl, hrest⟩
    · intro h
      obtain ⟨frames', heq, hrest⟩ := h
      obtain rfl := Pending.datum.inj heq
      exact ⟨_, hf, hrest⟩
  · -- behind the tail of a list only its closer can stand, and no form begins with a closer
    obtain ⟨l, L₁, hf, hstarts⟩ := f.exists_cons
    constructor
    · intro h
      rw [hf, List.cons_append, leads_cons] at h
      obtain ⟨s₁, hstep, -⟩ := h
      have hblank : l.1.isBlank = false := Kind.isBlank_of_startsForm hstarts
      rw [((step_closer_iff hblank).mp hstep).1] at hstarts
      cases hstarts
    · intro h
      obtain ⟨frames', heq, -⟩ := h
      cases heq

end Progress

theorem exists_form_of_parse (h : parse source filename = .ok [d]) :
    ∃ f : Form, (tokenize source false).map Token.lexeme = f.lexemes ∧ f.value = d ∧
      CountsRead f.lexemes := by
  obtain ⟨forms, hforms, hvalues⟩ := forms_of_parse h
  obtain ⟨f, rfl, hvalue⟩ : ∃ f, forms = [f] ∧ f.value = d := by
    simpa [List.map_eq_singleton_iff] using hvalues.symm
  have hlexemes : (tokenize source false).map Token.lexeme = f.lexemes := by
    simpa using hforms
  have hcounts := countsRead_tokenize (known_of_parse h).2
  rw [hlexemes] at hcounts
  exact ⟨f, hlexemes, hvalue, hcounts⟩

/-- A text with an expression on lines of its own is read by reading what stands before, completing
the datum that the expression denotes, and reading what stands after. -/
theorem parse_around_iff {before after : Text} (h : parse source filename = .ok [d]) :
    parse (before ++ '\n' :: source ++ '\n' :: after) filename = .ok data ↔
      ∃ s frames, Progress.Leads {} ((tokenize before false).map Token.lexeme) s ∧
        s.pending = .datum frames ∧ (Progress.complete s.data d frames).Leads
          ((tokenize after false).map Token.lexeme) ⟨data.reverse, .datum []⟩ := by
  obtain ⟨f, hlexemes, rfl, hcounts⟩ := exists_form_of_parse h
  rw [parse_eq_ok, map_lexeme_tokenize_append, map_lexeme_tokenize_append, hlexemes,
    List.append_assoc, Progress.leads_append]
  constructor
  · intro h
    obtain ⟨s, hbefore, hrest⟩ := h
    obtain ⟨frames, hpending, hafter⟩ := (Progress.leads_lexemes_append_iff f hcounts).mp hrest
    exact ⟨s, frames, hbefore, hpending, hafter⟩
  · intro h
    obtain ⟨s, frames, hbefore, hpending, hafter⟩ := h
    exact ⟨s, hbefore, (Progress.leads_lexemes_append_iff f hcounts).mpr ⟨frames, hpending, hafter⟩⟩

theorem exists_parse_around {before after : Text} (h : parse source filename = .ok [d])
    (h' : parse source' filename = .ok [d']) (hd : d.sameValue d' = true)
    (hdata : parse (before ++ '\n' :: source ++ '\n' :: after) filename = .ok data) :
    ∃ data', parse (before ++ '\n' :: source' ++ '\n' :: after) filename = .ok data' ∧
      Datum.sameValues data data' = true := by
  obtain ⟨s, frames, hbefore, hpending, hafter⟩ := (parse_around_iff h).mp hdata
  have hplain : ∀ source, ∀ l ∈ (tokenize source false).map Token.lexeme, l.1.isBlank = false :=
    fun source l hl => (isPlain_tokenize source l hl).1
  -- what is read before the expression is equal to itself, because it is read from nothing
  have hself : s.Same s := by
    obtain ⟨s', hbefore', hsame⟩ :=
      (Progress.Same.mk .nil (.datum .nil)).leads (hplain before) hbefore
    rwa [hbefore'.unique hbefore] at hsame
  obtain ⟨data₀, p⟩ := s
  obtain rfl : p = .datum frames := hpending
  obtain ⟨hdata₀, ⟨hframes⟩⟩ := hself
  have hcomplete := Progress.same_complete hdata₀ hd hframes
  obtain ⟨s₁, hafter', hsame⟩ := hcomplete.leads (hplain after) hafter
  obtain ⟨read, rfl, hread⟩ := hsame.exists_of_nil
  refine ⟨read.reverse, (parse_around_iff h').mpr ⟨_, frames, hbefore, rfl, ?_⟩, ?_⟩
  · rwa [List.reverse_reverse]
  · rw [Datum.sameValues_iff]
    simpa using hread.reverse

/-- Between lines that may be of any kind, an expression may be replaced by an equal one: either
both texts are read or neither is, and the data that are read are equal one by one. -/
theorem parse_around_sameValue (before after : Text) (h : parse source filename = .ok [d])
    (h' : parse source' filename = .ok [d']) (hd : d.sameValue d' = true) :
    ((∃ data, parse (before ++ '\n' :: source ++ '\n' :: after) filename = .ok data) ↔
      ∃ data, parse (before ++ '\n' :: source' ++ '\n' :: after) filename = .ok data) ∧
    ∀ data data', parse (before ++ '\n' :: source ++ '\n' :: after) filename = .ok data →
      parse (before ++ '\n' :: source' ++ '\n' :: after) filename = .ok data' →
      Datum.sameValues data data' = true := by
  refine ⟨⟨fun hread => ?_, fun hread => ?_⟩, fun data data' hdata hdata' => ?_⟩
  · obtain ⟨data, hdata⟩ := hread
    obtain ⟨data', hdata', -⟩ := exists_parse_around h h' hd hdata
    exact ⟨data', hdata'⟩
  · obtain ⟨data, hdata⟩ := hread
    obtain ⟨data', hdata', -⟩ := exists_parse_around h' h (Datum.sameValue_symm hd) hdata
    exact ⟨data', hdata'⟩
  · obtain ⟨data'', hdata'', hsame⟩ := exists_parse_around h h' hd hdata
    rw [hdata'] at hdata''
    obtain rfl := Except.ok.inj hdata''
    exact hsame

/-- As the tail of a list, behind a comment, a negative zero in square brackets may stand for an
abbreviated zero. -/
theorem parse_around_sameValue_tail :
    parse "'0".toList = .ok [.ofItems [.symbol "quote".toList, .number (.finite (.zero false))]] ∧
    parse "[quote -.0]".toList =
      .ok [.ofItems [.symbol "quote".toList, .number (.finite (.zero true))]] ∧
    (∃ data, parse ("(a . ;".toList ++ '\n' :: "'0".toList ++ '\n' :: ") b".toList) = .ok data) ∧
    ∃ data, parse ("(a . ;".toList ++ '\n' :: "[quote -.0]".toList ++ '\n' :: ") b".toList) =
      .ok data := by
  have h : parse "'0".toList =
      .ok [.ofItems [.symbol "quote".toList, .number (.finite (.zero false))]] := by
    decide +kernel
  have h' : parse "[quote -.0]".toList =
      .ok [.ofItems [.symbol "quote".toList, .number (.finite (.zero true))]] := by
    decide +kernel
  have hread : ∃ data, parse ("(a . ;".toList ++ '\n' :: "'0".toList ++ '\n' :: ") b".toList) =
      .ok data :=
    ⟨[.ofItems [.symbol ['a'], .symbol "quote".toList, .number (.finite (.zero false))],
      .symbol ['b']], by decide +kernel⟩
  exact ⟨h, h', hread, (parse_around_sameValue _ _ h h' (by decide +kernel)).1.mp hread⟩

end SExpr
