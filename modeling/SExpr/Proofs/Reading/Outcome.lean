import SExpr.Proofs.Reading.Step
import SExpr.Proofs.Stream.Drain

/-!
# What reading takes

Whatever reads from a token stream takes tokens that all make some progress. It ends with the token
that completes a datum, or it stops at the first token that is refused, which it takes or leaves. So
what any of the reading functions leaves in the stream is told by the tokens that it takes.
-/
namespace SExpr

variable {filename : Text} {g g' g'' : Progress} {s s' s'' : TokenStream}
  {tokens tokens' : List Token} {token : Token} {p : Pending} {d : Datum} {e : ReadError}

/-! ## What is refused -/

namespace Pending

variable {why : Refusal} {taken : Bool} {b : Bracket} {read : List Datum} {frames : List Frame}

/-- The reasons to refuse a token. It is taken unless a closer is needed, or a point or an ellipsis
stands where the first item of a list could. -/
inductive Refuses : Pending → Token → Refusal → Bool → Prop
  | unknown {p : Pending} {token : Token} :
      token.kind = .unknown → Refuses p token .unknownText true
  | noForm {frames : List Frame} {token : Token} :
      (∀ b read outer, frames ≠ .items b read :: outer) →
      Refuses (.datum frames) token (.wanted .expression) true
  | noItem {b : Bracket} {frames : List Frame} {token : Token} :
      token.kind = .dot ∨ token.kind = .ellipsis →
      Refuses (.datum (.items b [] :: frames)) token (.wanted .expression) false
  | noCloser {p : Pending} {b : Bracket} {token : Token} :
      Refuses p token (.wanted (.closer b)) false
  | count {p : Pending} {token : Token} {e : CountError} : Refuses p token (.count e) true

theorem fill_ne_refuse (d : Datum) (frames : List Frame) :
    fill d frames ≠ .refuse why taken := by
  induction frames generalizing d with
  | nil => simp [fill]
  | cons frame frames ih => cases frame <;> simp [fill, ih]

theorem start_refuse (h : start token frames = .refuse why taken) :
    token.kind.startsForm = false ∧ why = .wanted .expression ∧ taken = true := by
  unfold start at h
  split at h <;> simp_all [fill_ne_refuse, Kind.startsForm]

theorem refuses_extend (hknown : token.kind ≠ .unknown) (hblank : token.kind.isBlank = false)
    (h : extend token b read frames = .refuse why taken) :
    Refuses (.datum (.items b read :: frames)) token why taken := by
  unfold extend at h
  split at h
  · split_ifs at h
    · exact absurd h (fill_ne_refuse _ _)
    · obtain ⟨rfl, rfl⟩ := Verdict.refuse.inj h
      exact .noCloser
  · obtain ⟨rfl, rfl⟩ := Verdict.refuse.inj h
    exact .noCloser
  · rename_i hdot
    split_ifs at h with hread
    obtain ⟨rfl, rfl⟩ := Verdict.refuse.inj h
    subst hread
    exact .noItem (Or.inl hdot)
  · rename_i hellipsis
    split_ifs at h with hread
    · obtain ⟨rfl, rfl⟩ := Verdict.refuse.inj h
      subst hread
      exact .noItem (Or.inr hellipsis)
    · split at h
      · cases h
      · obtain ⟨rfl, rfl⟩ := Verdict.refuse.inj h
        exact .count
  · obtain ⟨hstarts, -⟩ := start_refuse h
    cases hk : token.kind <;> simp_all [Kind.startsForm, Kind.isBlank]

theorem refuses_of_feed (h : p.feed token = .refuse why taken) : p.Refuses token why taken := by
  unfold feed at h
  split_ifs at h with hblank hunknown
  · obtain ⟨rfl, rfl⟩ := Verdict.refuse.inj h
    exact .unknown hunknown
  · split at h
    · split_ifs at h
      · exact absurd h (fill_ne_refuse _ _)
      · obtain ⟨rfl, rfl⟩ := Verdict.refuse.inj h
        exact .noCloser
    · exact refuses_extend hunknown (Bool.eq_false_iff.mpr hblank) h
    · rename_i frames hframes
      obtain ⟨-, rfl, rfl⟩ := start_refuse h
      refine .noForm fun b read outer heq => ?_
      exact hframes b read outer heq

end Pending

theorem Progress.exists_refuse_of_step {why : Refusal} (h : g.step token.lexeme = .error why) :
    ∃ taken, g.pending.feed token = .refuse why taken := by
  unfold step at h
  rw [Pending.feed_lexeme] at h
  split at h
  · cases h
  · cases h
  · rename_i why' taken hrefuse
    cases h
    exact ⟨taken, hrefuse⟩

/-! ## What is taken -/

/-- Tokens are taken from a stream, and they take a progress further. -/
structure Reads (g : Progress) (s : TokenStream) (tokens : List Token) (g' : Progress)
    (s' : TokenStream) : Prop where
  takes : s.Takes tokens s'
  leads : g.Leads (tokens.map Token.lexeme) g'

namespace Reads

theorem refl (g : Progress) (s : TokenStream) : Reads g s [] g s :=
  ⟨.refl s, Progress.leads_nil.mpr rfl⟩

theorem look (g : Progress) (s : TokenStream) : Reads g s [] g s.peek.2 :=
  ⟨.look s, Progress.leads_nil.mpr rfl⟩

theorem trans (h : Reads g s tokens g' s') (h' : Reads g' s' tokens' g'' s'') :
    Reads g s (tokens ++ tokens') g'' s'' := by
  refine ⟨h.takes.trans h'.takes, ?_⟩
  rw [List.map_append]
  exact Progress.leads_append.mpr ⟨g', h.leads, h'.leads⟩

/-- A token that makes a progress is taken, since the end of the input makes none. -/
theorem take (h : g.step s.peek.1.lexeme = .ok g') : Reads g s [s.peek.1] g' s.pop.2 := by
  have hmore : s.peek.1.kind ≠ .endOfInput := by
    intro hend
    obtain ⟨taken, hrefuse⟩ := g.pending.feed_of_end hend
    have hstep : g.step s.peek.1.lexeme = .error _ := Progress.step_of_refuse hrefuse
    rw [hstep] at h
    cases h
  exact ⟨TokenStream.takes_pop hmore, Progress.leads_cons.mpr ⟨g', h, Progress.leads_nil.mpr rfl⟩⟩

end Reads

/-- Reading on from what is pending ends with the token that completes a datum. -/
inductive Completes (p : Pending) (s : TokenStream) : Datum → TokenStream → Prop
  | done {tokens : List Token} {q : Pending} {s' : TokenStream} {d : Datum} :
      (∀ data, Reads ⟨data, p⟩ s tokens ⟨data, q⟩ s') → q.feed s'.peek.1 = .done d →
      Completes p s d s'.pop.2

/-- Reading on from a progress stops with an error at a token that is refused. -/
inductive Stops (filename : Text) (g : Progress) (s : TokenStream) :
    ReadError → TokenStream → Prop
  | refuse {tokens : List Token} {g' : Progress} {s' : TokenStream} {why : Refusal}
      {taken : Bool} : Reads g s tokens g' s' → g'.pending.feed s'.peek.1 = .refuse why taken →
      Stops filename g s (why.error filename s'.peek.1) (if taken then s'.pop.2 else s'.peek.2)

theorem Completes.exists_reads (h : Completes p s d s') (data : List Datum) :
    ∃ tokens, Reads ⟨data, p⟩ s tokens ⟨d :: data, .datum []⟩ s' := by
  cases h with
  | done hreads hdone => exact ⟨_, (hreads data).trans (.take (Progress.step_of_done hdone))⟩

theorem Stops.of_reads (h : Reads g s tokens g' s') (hstops : Stops filename g' s' e s'') :
    Stops filename g s e s'' := by
  cases hstops with
  | refuse hreads hrefuse => exact .refuse (h.trans hreads) hrefuse

namespace TokenStream

theorem completes_resume (h : s.resume filename p = (.ok d, s')) : Completes p s d s' := by
  fun_induction resume filename p s with
  | case1 p s next hfeed ih =>
    cases ih h with
    | done hreads hdone =>
      exact .done (fun data => (Reads.take (Progress.step_of_more hfeed)).trans (hreads data)) hdone
  | case2 p s d' hfeed =>
    obtain ⟨hd, rfl⟩ := Prod.mk.inj h
    obtain rfl := Except.ok.inj hd
    exact .done (fun data => .refl _ s) hfeed
  | case3 => simp at h

theorem stops_resume (h : s.resume filename p = (.error e, s')) (data : List Datum) :
    Stops filename ⟨data, p⟩ s e s' := by
  fun_induction resume filename p s with
  | case1 p s next hfeed ih => exact .of_reads (.take (Progress.step_of_more hfeed)) (ih h)
  | case2 => simp at h
  | case3 p s why taken hfeed =>
    obtain ⟨he, rfl⟩ := Prod.mk.inj h
    obtain rfl := Except.error.inj he
    exact .refuse (.refl _ s) hfeed

theorem reads_skipTrivia (h : s.skipTrivia filename = (.ok (), s')) (g : Progress) :
    ∃ tokens, Reads g s tokens g s' := by
  fun_induction skipTrivia filename s with
  | case1 s token hblank ih =>
    obtain ⟨tokens, hreads⟩ := ih h
    exact ⟨_, (Reads.take (Progress.step_of_more (g.pending.feed_blank hblank))).trans hreads⟩
  | case2 => simp at h
  | case3 s =>
    obtain rfl : s.peek.2 = s' := by simpa using h
    exact ⟨[], .look g s⟩

theorem stops_skipTrivia (h : s.skipTrivia filename = (.error e, s')) (g : Progress) :
    Stops filename g s e s' := by
  fun_induction skipTrivia filename s with
  | case1 s token hblank ih =>
    exact .of_reads (.take (Progress.step_of_more (g.pending.feed_blank hblank))) (ih h)
  | case2 s token hblank hunknown =>
    obtain ⟨he, rfl⟩ := Prod.mk.inj h
    obtain rfl := Except.error.inj he
    exact .refuse (.refl g s) (g.pending.feed_unknown hunknown)
  | case3 => simp at h

theorem exists_reads_readAll {ds : List Datum} (h : s.readAll filename = (.ok ds, s'))
    (data : List Datum) :
    ∃ tokens, Reads ⟨data, .datum []⟩ s tokens ⟨ds.reverse ++ data, .datum []⟩ s' := by
  fun_induction readAll filename s generalizing ds data with
  | case2 s ahead hskip hend =>
    obtain ⟨hds, rfl⟩ := Prod.mk.inj h
    obtain rfl := Except.ok.inj hds
    exact reads_skipTrivia hskip _
  | case5 s ahead hskip hend d rest hread ds' rest' hall ih =>
    obtain ⟨hds, rfl⟩ := Prod.mk.inj h
    obtain rfl := Except.ok.inj hds
    obtain ⟨blanks, hblanks⟩ := reads_skipTrivia hskip ⟨data, .datum []⟩
    obtain ⟨tokens, hdatum⟩ := (completes_resume hread).exists_reads data
    obtain ⟨more, hmore⟩ := ih hall (d :: data)
    rw [List.reverse_cons, List.append_assoc]
    exact ⟨_, (hblanks.trans hdatum).trans hmore⟩
  | _ => simp at h

theorem stops_readAll (h : s.readAll filename = (.error e, s')) (data : List Datum) :
    Stops filename ⟨data, .datum []⟩ s e s' := by
  fun_induction readAll filename s generalizing data with
  | case1 s e' ahead hskip =>
    obtain ⟨he, rfl⟩ := Prod.mk.inj h
    obtain rfl := Except.error.inj he
    exact stops_skipTrivia hskip _
  | case3 s ahead hskip hend e' rest hread =>
    obtain ⟨he, rfl⟩ := Prod.mk.inj h
    obtain rfl := Except.error.inj he
    obtain ⟨blanks, hblanks⟩ := reads_skipTrivia hskip ⟨data, .datum []⟩
    exact .of_reads hblanks (stops_resume hread data)
  | case4 s ahead hskip hend d rest hread e' rest' hall ih =>
    obtain ⟨he, rfl⟩ := Prod.mk.inj h
    obtain rfl := Except.error.inj he
    obtain ⟨blanks, hblanks⟩ := reads_skipTrivia hskip ⟨data, .datum []⟩
    obtain ⟨tokens, hdatum⟩ := (completes_resume hread).exists_reads data
    exact .of_reads (hblanks.trans hdatum) (ih hall (d :: data))
  | _ => simp at h

end TokenStream

end SExpr
