import SExpr.Proofs.Reading.Places

/-!
# Reading datum by datum

Reading all data of a text is reading one datum after the other. Looking at a token and skipping
blanks in between change nothing about what is read, and what goes wrong at any of these calls is
what goes wrong in reading all data.
-/
namespace SExpr

variable {source filename : Text} {s ahead rest : TokenStream} {d : Datum} {data : List Datum}
  {e : ReadError} {p next : Pending}

/-- A call while a text is read datum by datum. -/
inductive Visit
  | peek
  | skipTrivia
  | readDatum
  deriving DecidableEq, Repr

def Visit.operation : Visit → Operation
  | peek => .peek
  | skipTrivia => .skipTrivia
  | readDatum => .readDatum

namespace TokenStream

/-! ## Looking and skipping -/

theorem resume_of_more (h : p.feed s.peek.1 = .more next) :
    s.resume filename p = s.pop.2.resume filename next := by
  rw [resume]
  split <;> simp_all

theorem resume_of_done (h : p.feed s.peek.1 = .done d) :
    s.resume filename p = (.ok d, s.pop.2) := by
  rw [resume]
  split <;> simp_all

theorem resume_of_refuse {why : Refusal} {taken : Bool}
    (h : p.feed s.peek.1 = .refuse why taken) : s.resume filename p =
      (.error (why.error filename s.peek.1), if taken then s.pop.2 else s.peek.2) := by
  rw [resume]
  split <;> simp_all

theorem resume_peek (s : TokenStream) (filename : Text) (p : Pending) :
    s.peek.2.resume filename p = s.resume filename p := by
  have hpeek : s.peek.2.peek.1 = s.peek.1 := by rw [peek_peek]
  cases h : p.feed s.peek.1 with
  | more next => rw [resume_of_more h, resume_of_more (hpeek ▸ h), pop_peek_snd]
  | done d => rw [resume_of_done h, resume_of_done (hpeek ▸ h), pop_peek_snd]
  | refuse why taken =>
    rw [resume_of_refuse h, resume_of_refuse (hpeek ▸ h), pop_peek_snd, peek_peek]

theorem skipTrivia_peek (s : TokenStream) (filename : Text) :
    s.peek.2.skipTrivia filename = s.skipTrivia filename := by
  rw [skipTrivia.eq_def filename s.peek.2, skipTrivia.eq_def filename s]
  simp only [peek_peek, pop_peek_snd]

theorem resume_skipTrivia (h : s.skipTrivia filename = (.ok (), ahead)) (p : Pending) :
    ahead.resume filename p = s.resume filename p := by
  fun_induction skipTrivia filename s with
  | case1 s token hblank ih => rw [ih h, resume_of_more (p.feed_blank hblank)]
  | case2 => simp at h
  | case3 s =>
    obtain rfl : s.peek.2 = ahead := by simpa using h
    exact s.resume_peek filename p

theorem resume_of_skipTrivia_error (h : s.skipTrivia filename = (.error e, ahead)) (p : Pending) :
    s.resume filename p = (.error e, ahead) := by
  fun_induction skipTrivia filename s with
  | case1 s token hblank ih => rw [resume_of_more (p.feed_blank hblank), ih h]
  | case2 s token hblank hunknown =>
    obtain ⟨he, rfl⟩ := Prod.mk.inj h
    obtain rfl := Except.error.inj he
    exact resume_of_refuse (p.feed_unknown hunknown)
  | case3 => simp at h

theorem skipTrivia_skipTrivia (h : s.skipTrivia filename = (.ok (), ahead)) :
    ahead.skipTrivia filename = (.ok (), ahead) := by
  fun_induction skipTrivia filename s with
  | case1 s token hblank ih => exact ih h
  | case2 => simp at h
  | case3 s token hblank hunknown =>
    obtain rfl : s.peek.2 = ahead := by simpa using h
    rw [skipTrivia_peek, skipTrivia.eq_def filename s]
    rw [dif_neg hblank, if_neg hunknown]

/-- Reading all data goes by blanks, and then either nothing is left or a datum comes next. -/
theorem readAll_eq (s : TokenStream) (filename : Text) : s.readAll filename =
    match s.skipTrivia filename with
    | (.error e, ahead) => (.error e, ahead)
    | (.ok (), ahead) =>
      if ahead.peek.1.kind = .endOfInput then (.ok [], ahead)
      else
        match s.readDatum filename with
        | (.error e, rest) => (.error e, rest)
        | (.ok d, rest) => (rest.readAll filename).map (·.map (d :: ·)) id := by
  fun_induction readAll filename s with
  | case1 s e ahead hskip => rw [hskip]
  | case2 s ahead hskip hend => simp only [hskip, hend, if_true]
  | case3 s ahead hskip hend e rest hread =>
    have hread := (resume_skipTrivia hskip _).symm.trans hread
    simp only [hskip, hend, readDatum, hread, if_false]
  | case4 s ahead hskip hend d rest hread e rest' hall ih =>
    have hread := (resume_skipTrivia hskip _).symm.trans hread
    simp only [hskip, hend, readDatum, hread, hall, if_false]
    rfl
  | case5 s ahead hskip hend d rest hread ds rest' hall ih =>
    have hread := (resume_skipTrivia hskip _).symm.trans hread
    simp only [hskip, hend, readDatum, hread, hall, if_false]
    rfl

theorem readAll_congr {s' : TokenStream} (hskip : s.skipTrivia filename = s'.skipTrivia filename)
    (hread : s.readDatum filename = s'.readDatum filename) :
    s.readAll filename = s'.readAll filename := by
  rw [readAll_eq, readAll_eq, hskip, hread]

theorem readAll_peek (s : TokenStream) (filename : Text) :
    s.peek.2.readAll filename = s.readAll filename :=
  readAll_congr (s.skipTrivia_peek filename) (s.resume_peek filename _)

theorem readAll_skipTrivia (h : s.skipTrivia filename = (.ok (), ahead)) :
    ahead.readAll filename = s.readAll filename :=
  readAll_congr ((skipTrivia_skipTrivia h).trans h.symm) (resume_skipTrivia h _)

/-! ## The next datum -/

theorem readAll_of_readDatum (h : s.readDatum filename = (.ok d, rest)) :
    (s.readAll filename).1 = (rest.readAll filename).1.map (d :: ·) := by
  rw [readAll_eq]
  rcases hskip : s.skipTrivia filename with ⟨e | done, ahead⟩
  · rw [readDatum, resume_of_skipTrivia_error hskip] at h
    cases h
  · have hmore : ahead.peek.1.kind ≠ .endOfInput := by
      intro hend
      obtain ⟨why, taken, hrefuse⟩ := Pending.feed_endOfInput (.datum []) hend
      rw [readDatum, ← resume_skipTrivia hskip, resume_of_refuse hrefuse] at h
      cases h
    simp only [hmore, if_false, h]
    rfl

theorem readAll_eq_ok_iff (h : s.readDatum filename = (.ok d, rest)) :
    (s.readAll filename).1 = .ok data ↔
      ∃ data', (rest.readAll filename).1 = .ok data' ∧ d :: data' = data := by
  rw [readAll_of_readDatum h]
  cases (rest.readAll filename).1 <;> simp [Except.map]

theorem readAll_eq_error_iff (h : s.readDatum filename = (.ok d, rest)) :
    (s.readAll filename).1 = .error e ↔ (rest.readAll filename).1 = .error e := by
  rw [readAll_of_readDatum h]
  cases (rest.readAll filename).1 <;> simp [Except.map]

theorem readAll_of_readDatum_error (h : s.readDatum filename = (.error e, rest)) :
    (s.readAll filename).1 = .error e ∨ (s.readAll filename).1 = .ok [] ∧
      ∃ ahead, s.skipTrivia filename = (.ok (), ahead) ∧ ahead.peek.1.kind = .endOfInput := by
  rw [readAll_eq]
  rcases hskip : s.skipTrivia filename with ⟨e' | done, ahead⟩
  · rw [readDatum, resume_of_skipTrivia_error hskip] at h
    obtain rfl := Except.error.inj (Prod.mk.inj h).1
    exact Or.inl rfl
  · by_cases hend : ahead.peek.1.kind = .endOfInput
    · refine Or.inr ⟨?_, ahead, rfl, hend⟩
      simp only [hend, if_true]
    · left
      simp only [hend, if_false, h]

def noDatum (source filename : Text) : ReadError :=
  .source ⟨.unexpected "an expression".toList "end of input".toList, filename, .following source⟩

theorem StandsIn.readDatum_of_end (hs : s.StandsIn source) (hend : s.peek.1.kind = .endOfInput) :
    s.readDatum filename = (.error (noDatum source filename), s.pop.2) := by
  have hrefuse : Pending.feed (.datum []) s.peek.1 = .refuse (.wanted .expression) true := by
    simp [Pending.feed, Pending.start, Kind.isBlank, hend]
  rw [readDatum, resume_of_refuse hrefuse, hs.peek_of_end hend]
  rfl

theorem readAll_of_end (h : s.peek.1.kind = .endOfInput) : (s.readAll filename).1 = .ok [] := by
  have hskip : s.skipTrivia filename = (.ok (), s.peek.2) := by
    rw [skipTrivia.eq_def]
    simp [h, Kind.isBlank]
  have hend : s.peek.2.peek.1.kind = .endOfInput := by rwa [peek_peek]
  rw [readAll_eq, hskip]
  simp only [hend, if_true]

/-! ## Texts that are read -/

theorem exists_skipTrivia_of_ok (h : (s.readAll filename).1 = .ok data) :
    ∃ ahead, s.skipTrivia filename = (.ok (), ahead) ∧ (ahead.readAll filename).1 = .ok data := by
  rcases hskip : s.skipTrivia filename with ⟨e | done, ahead⟩
  · rw [readAll_eq, hskip] at h
    cases h
  · exact ⟨ahead, rfl, readAll_skipTrivia hskip ▸ h⟩

theorem readDatum_of_cons (h : (s.readAll filename).1 = .ok (d :: data)) :
    ∃ rest, s.readDatum filename = (.ok d, rest) ∧ (rest.readAll filename).1 = .ok data := by
  rcases hread : s.readDatum filename with ⟨e | d', rest⟩
  · rcases readAll_of_readDatum_error hread with herror | ⟨hnil, -⟩
    · rw [herror] at h
      cases h
    · rw [hnil] at h
      cases h
  · obtain ⟨data', hrest, heq⟩ := (readAll_eq_ok_iff hread).mp h
    obtain ⟨rfl, rfl⟩ := List.cons.inj heq
    exact ⟨rest, rfl, hrest⟩

theorem StandsIn.readDatum_of_nil (hs : s.StandsIn source) (h : (s.readAll filename).1 = .ok []) :
    ∃ rest, s.readDatum filename = (.error (noDatum source filename), rest) ∧
      (rest.readAll filename).1 = .ok [] := by
  rcases hread : s.readDatum filename with ⟨e | d, rest⟩
  · rcases readAll_of_readDatum_error hread with herror | ⟨-, ahead, hskip, hend⟩
    · rw [herror] at h
      cases h
    · have hahead : ahead.StandsIn source := by
        obtain ⟨tokens, hreads⟩ := reads_skipTrivia hskip {}
        exact hreads.takes.standsIn hs
      have hdatum : ahead.readDatum filename = (.error (noDatum source filename), ahead.pop.2) :=
        hahead.readDatum_of_end hend
      rw [readDatum, resume_skipTrivia hskip] at hdatum
      obtain ⟨he, rfl⟩ := Prod.mk.inj (hread.symm.trans hdatum)
      refine ⟨_, by rw [he], readAll_of_end ?_⟩
      rwa [hahead.pop_of_end hend]
  · obtain ⟨data', -, heq⟩ := (readAll_eq_ok_iff hread).mp h
    cases heq

theorem perform_skipTrivia {r : Except ReadError Unit}
    (h : s.skipTrivia filename = (r, ahead)) :
    s.perform filename .skipTrivia = (r.map fun _ => .nothing, ahead) := by
  rw [perform, h]
  rfl

theorem perform_readDatum {r : Except ReadError Datum} (h : s.readDatum filename = (r, rest)) :
    s.perform filename .readDatum = (r.map .datum, rest) := by
  rw [perform, h]
  rfl

/-- The next call tells the first of the data that are left, or that there is none. -/
theorem StandsIn.visit_of_ok (hs : s.StandsIn source) (h : (s.readAll filename).1 = .ok data) :
    (s.perform filename .skipTrivia).1 = .ok .nothing ∧
      (s.perform filename .readDatum).1 = match data.head? with
        | some d => .ok (.datum d)
        | none => .error (noDatum source filename) := by
  obtain ⟨ahead, hskip, -⟩ := exists_skipTrivia_of_ok h
  refine ⟨by rw [perform_skipTrivia hskip]; rfl, ?_⟩
  cases data with
  | nil =>
    obtain ⟨rest, hread, -⟩ := hs.readDatum_of_nil h
    rw [perform_readDatum hread]
    rfl
  | cons d data =>
    obtain ⟨rest, hread, -⟩ := readDatum_of_cons h
    rw [perform_readDatum hread]
    rfl

/-- After any calls, the data are left that were not read by them. -/
theorem readAll_after_ok (hs : s.StandsIn source) (h : (s.readAll filename).1 = .ok data)
    (visits : List Visit) :
    ((s.after filename (visits.map Visit.operation)).readAll filename).1 =
      .ok (data.drop (visits.count .readDatum)) := by
  induction visits generalizing s data with
  | nil => exact h
  | cons visit visits ih =>
    have hnext := (hs.movesOn filename visit.operation).standsIn
    rw [List.map_cons, after]
    cases visit with
    | peek => exact ih hnext (s.readAll_peek filename ▸ h)
    | skipTrivia =>
      obtain ⟨ahead, hskip, hahead⟩ := exists_skipTrivia_of_ok h
      rw [Visit.operation, perform_skipTrivia hskip] at hnext ⊢
      exact ih hnext hahead
    | readDatum =>
      -- when all data are read, nothing is left however often a datum is asked for
      rw [List.count_cons_self]
      cases data with
      | nil =>
        obtain ⟨rest, hread, hrest⟩ := hs.readDatum_of_nil h
        rw [Visit.operation, perform_readDatum hread] at hnext ⊢
        simpa using ih hnext hrest
      | cons d data =>
        obtain ⟨rest, hread, hrest⟩ := readDatum_of_cons h
        rw [Visit.operation, perform_readDatum hread] at hnext ⊢
        exact ih hnext hrest

/-! ## Texts in which something is wrong -/

/-- The number of data that are read before something goes wrong or no datum is left. -/
def dataAhead (filename : Text) (s : TokenStream) : Nat :=
  match _h : s.readDatum filename with
  | (.ok _, rest) => rest.dataAhead filename + 1
  | (.error _, _) => 0
termination_by s.remaining
decreasing_by
  have hlt := remaining_resume_lt (congrArg Prod.fst _h)
  rwa [show s.resume filename (.datum []) = _ from _h] at hlt

theorem dataAhead_of_ok (h : s.readDatum filename = (.ok d, rest)) :
    s.dataAhead filename = rest.dataAhead filename + 1 := by
  rw [dataAhead]
  split <;> simp_all

theorem dataAhead_of_error (h : s.readDatum filename = (.error e, rest)) :
    s.dataAhead filename = 0 := by
  rw [dataAhead]
  split <;> simp_all

theorem dataAhead_congr {s' : TokenStream} (h : s.readDatum filename = s'.readDatum filename) :
    s.dataAhead filename = s'.dataAhead filename := by
  rcases hread : s'.readDatum filename with ⟨e | d, rest⟩
  · rw [dataAhead_of_error hread, dataAhead_of_error (h.trans hread)]
  · rw [dataAhead_of_ok hread, dataAhead_of_ok (h.trans hread)]

theorem skipTrivia_of_error (h : (s.readAll filename).1 = .error e) :
    (s.skipTrivia filename).1 = .ok () ∨
      (s.skipTrivia filename).1 = .error e ∧ s.dataAhead filename = 0 := by
  rcases hskip : s.skipTrivia filename with ⟨e' | done, ahead⟩
  · rw [readAll_eq, hskip] at h
    obtain rfl := Except.error.inj h
    exact Or.inr ⟨rfl, dataAhead_of_error (resume_of_skipTrivia_error hskip _)⟩
  · exact Or.inl rfl

theorem readDatum_of_dataAhead (h : 0 < s.dataAhead filename) :
    ∃ d, (s.readDatum filename).1 = .ok d := by
  rcases hread : s.readDatum filename with ⟨e | d, rest⟩
  · rw [dataAhead_of_error hread] at h
    exact absurd h (Nat.lt_irrefl 0)
  · exact ⟨d, rfl⟩

theorem readDatum_of_error (h : (s.readAll filename).1 = .error e)
    (hahead : s.dataAhead filename = 0) : (s.readDatum filename).1 = .error e := by
  rcases hread : s.readDatum filename with ⟨e' | d, rest⟩
  · rcases readAll_of_readDatum_error hread with herror | ⟨hnil, -⟩
    · rw [Except.error.inj (herror.symm.trans h)]
    · rw [hnil] at h
      cases h
  · rw [dataAhead_of_ok hread] at hahead
    cases hahead

/-- The next call succeeds while there are data before what is wrong, and then it goes wrong at the
latest when a datum is to be read. -/
theorem visit_of_error (h : (s.readAll filename).1 = .error e) :
    (0 < s.dataAhead filename → (s.perform filename .skipTrivia).1 = .ok .nothing ∧
      ∃ d, (s.perform filename .readDatum).1 = .ok (.datum d)) ∧
    (s.dataAhead filename = 0 → ((s.perform filename .skipTrivia).1 = .ok .nothing ∨
      (s.perform filename .skipTrivia).1 = .error e) ∧
      (s.perform filename .readDatum).1 = .error e) := by
  have hskip := skipTrivia_of_error h
  refine ⟨fun hahead => ⟨?_, ?_⟩, fun hahead => ⟨?_, ?_⟩⟩
  · rcases hskip with hok | ⟨-, hnone⟩
    · exact congrArg (Except.map fun _ => Answer.nothing) hok
    · omega
  · obtain ⟨d, hread⟩ := readDatum_of_dataAhead hahead
    exact ⟨d, congrArg (Except.map Answer.datum) hread⟩
  · rcases hskip with hok | ⟨herror, -⟩
    · exact Or.inl (congrArg (Except.map fun _ => Answer.nothing) hok)
    · exact Or.inr (congrArg (Except.map fun _ => Answer.nothing) herror)
  · exact congrArg (Except.map Answer.datum) (readDatum_of_error h hahead)

/-- After calls that succeed, the same is wrong, behind as many data as were not read by them. -/
theorem readAll_after_error (h : (s.readAll filename).1 = .error e) (visits : List Visit)
    (hall : ∀ done ∈ s.run filename (visits.map Visit.operation), ∃ answer, done.1 = .ok answer) :
    ((s.after filename (visits.map Visit.operation)).readAll filename).1 = .error e ∧
      (s.after filename (visits.map Visit.operation)).dataAhead filename +
        visits.count .readDatum = s.dataAhead filename := by
  induction visits generalizing s with
  | nil => exact ⟨h, rfl⟩
  | cons visit visits ih =>
    rw [List.map_cons, run] at hall
    obtain ⟨⟨answer, hanswer⟩, hall⟩ := List.forall_mem_cons.mp hall
    rw [List.map_cons, after]
    cases visit with
    | peek =>
      have hahead := dataAhead_congr (s.resume_peek filename (.datum []))
      obtain ⟨hwrong, hcount⟩ := ih (s.readAll_peek filename ▸ h) hall
      exact ⟨hwrong, hcount.trans hahead⟩
    | skipTrivia =>
      rcases hskip : s.skipTrivia filename with ⟨e' | done, ahead⟩
      · rw [Visit.operation, perform_skipTrivia hskip] at hanswer
        cases hanswer
      · rw [Visit.operation, perform_skipTrivia hskip] at hall ⊢
        have hahead := dataAhead_congr (resume_skipTrivia hskip (.datum []))
        obtain ⟨hwrong, hcount⟩ := ih (readAll_skipTrivia hskip ▸ h) hall
        exact ⟨hwrong, hcount.trans hahead⟩
    | readDatum =>
      rcases hread : s.readDatum filename with ⟨e' | d, rest⟩
      · rw [Visit.operation, perform_readDatum hread] at hanswer
        cases hanswer
      · rw [Visit.operation, perform_readDatum hread] at hall ⊢
        obtain ⟨hwrong, hcount⟩ := ih ((readAll_eq_error_iff hread).mp h) hall
        refine ⟨hwrong, ?_⟩
        rw [List.count_cons_self, ← Nat.add_assoc, hcount, dataAhead_of_ok hread]

/-! ## Any calls -/

/-- A text that is read as some data gives the same data one by one, whatever looks and skips are in
between, and then the error that there is no datum at its end. In a text that is not read, some data
come first, and the first call that goes wrong, which is at the latest the one for the datum after
them, has the same error. -/
theorem visits_agree (source filename : Text) :
    match parse source filename with
    | .ok data => ∀ before : List Visit,
        let s := (ofText source).after filename (before.map Visit.operation)
        (s.perform filename .skipTrivia).1 = .ok .nothing ∧
          (s.perform filename .readDatum).1 = match data[before.count .readDatum]? with
            | some d => .ok (.datum d)
            | none => .error (noDatum source filename)
    | .error e => ∃ k, ∀ before : List Visit,
        (∀ done ∈ (ofText source).run filename (before.map Visit.operation),
          ∃ answer, done.1 = .ok answer) →
        let s := (ofText source).after filename (before.map Visit.operation)
        before.count .readDatum ≤ k ∧
          (before.count .readDatum < k → (s.perform filename .skipTrivia).1 = .ok .nothing ∧
            ∃ d, (s.perform filename .readDatum).1 = .ok (.datum d)) ∧
          (before.count .readDatum = k → ((s.perform filename .skipTrivia).1 = .ok .nothing ∨
            (s.perform filename .skipTrivia).1 = .error e) ∧
            (s.perform filename .readDatum).1 = .error e) := by
  cases hparse : parse source filename with
  | ok data =>
    intro before s
    have hs : s.StandsIn source := standsIn_after source filename _
    have hleft := readAll_after_ok (standsIn_ofText source) hparse before
    rw [← List.head?_drop]
    exact hs.visit_of_ok hleft
  | error e =>
    refine ⟨(ofText source).dataAhead filename, fun before hall => ?_⟩
    intro s
    obtain ⟨hwrong, hcount⟩ : (s.readAll filename).1 = .error e ∧ s.dataAhead filename +
        before.count .readDatum = (ofText source).dataAhead filename :=
      readAll_after_error hparse before hall
    obtain ⟨hbefore, hat⟩ := visit_of_error hwrong
    exact ⟨by omega, fun hlt => hbefore (by omega), fun heq => hat (by omega)⟩

end TokenStream

end SExpr
