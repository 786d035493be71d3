import SExpr.Proofs.Datum.Chain
import SExpr.Proofs.Reading.RepeatCount
import SExpr.Proofs.Reading.Step

/-!
# Reading and the grammar of forms

The lexemes of a form complete its value within any frames. Conversely, lexemes that leave nothing
pending are those of forms in a row: a lexeme that begins a form is the first one of a form that is
read, and within a list the lexemes go on with what ends it.
-/
namespace SExpr

open Progress

variable {data : List Datum} {frames : List Frame} {b : Bracket} {read : List Datum}
  {k : Kind} {t : Text} {L L' : List (Kind × Text)} {s : Progress}

/-! ## The lexemes of forms are read -/

/-- The counts among lexemes are what their digits denote. -/
def CountsRead (L : List (Kind × Text)) : Prop :=
  ∀ t, (Kind.ellipsis, t) ∈ L → repeatCount t = .ok (Text.decimalNumber (t.dropWhile (· = '.')))

theorem CountsRead.of_subset (h : CountsRead L) (hsub : L' ⊆ L) : CountsRead L' :=
  fun t ht => h t (hsub ht)

theorem leads_begins {l : Kind × Text} {s₁ : Progress} (h : Begins data frames l s₁)
    (hrest : s₁.Leads L s) : Leads ⟨data, .datum frames⟩ (l :: L) s :=
  leads_cons.mpr ⟨s₁, step_of_begins h, hrest⟩

theorem leads_ends {l : Kind × Text} {s₁ : Progress} (h : Ends data b read frames l s₁)
    (hrest : s₁.Leads L s) : Leads ⟨data, .datum (.items b read :: frames)⟩ (l :: L) s :=
  leads_cons.mpr ⟨s₁, step_of_ends h, hrest⟩

theorem leads_closer (list : Datum) (t : Text) :
    Leads ⟨data, .closer b list frames⟩ [(.closer b, t)] (complete data list frames) :=
  leads_cons.mpr ⟨_, (step_closer_iff rfl).mpr ⟨rfl, rfl⟩, leads_nil.mpr rfl⟩

mutual

/-- The lexemes of a form complete its value. -/
theorem Form.leads_complete (f : Form) (data : List Datum) (frames : List Frame)
    (h : CountsRead f.lexemes) :
    Leads ⟨data, .datum frames⟩ f.lexemes (complete data f.value frames) := by
  match f with
  | .number t => exact leads_begins (.atom (k := .number) rfl) (leads_nil.mpr rfl)
  | .boolean t => exact leads_begins (.atom (k := .boolean) rfl) (leads_nil.mpr rfl)
  | .symbol t => exact leads_begins (.atom (k := .symbol) rfl) (leads_nil.mpr rfl)
  | .abbreviated a t f =>
    have hf := f.leads_complete data (.abbreviation a :: frames)
      (h.of_subset (by simp [Form.lexemes]))
    exact leads_begins (.abbreviation a t) hf
  | .empty b t t' =>
    exact leads_begins (.opener b t) (leads_ends (.closer t') (leads_nil.mpr rfl))
  | .list b t first rest =>
    have hfirst := first.leads_complete data (.items b [] :: frames)
      (h.of_subset (by simp [Form.lexemes]))
    have hrest := rest.leads_complete data b [first.value] frames (by simp)
      (h.of_subset (by simp [Form.lexemes]))
    exact leads_begins (.opener b t) (leads_append.mpr ⟨_, hfirst, hrest⟩)

theorem FormTail.leads_complete (r : FormTail) (data : List Datum) (b : Bracket)
    (read : List Datum) (frames : List Frame) (hread : read ≠ [])
    (h : CountsRead (r.lexemes b)) :
    Leads ⟨data, .datum (.items b read :: frames)⟩ (r.lexemes b)
      (complete data (.ofItems read.reverse r.value) frames) := by
  match r with
  | .close t => exact leads_ends (.closer t) (leads_nil.mpr rfl)
  | .item f r =>
    have hf := f.leads_complete data (.items b read :: frames)
      (h.of_subset (by simp [FormTail.lexemes]))
    have hr := r.leads_complete data b (f.value :: read) frames (by simp)
      (h.of_subset (by simp [FormTail.lexemes]))
    rw [List.reverse_cons, Datum.ofItems_concat] at hr
    exact leads_append.mpr ⟨_, hf, hr⟩
  | .dotted t f t' =>
    have hf := f.leads_complete data (.tail b read :: frames)
      (h.of_subset (by simp [FormTail.lexemes]))
    exact leads_ends (.dot t hread) (leads_append.mpr ⟨_, hf, leads_closer _ t'⟩)
  | .repeated t t' =>
    have hn := h t (by simp [FormTail.lexemes])
    exact leads_ends (.ellipsis hread hn) (leads_closer _ t')

end

theorem leads_forms (forms : List Form) (data : List Datum)
    (h : CountsRead (forms.flatMap Form.lexemes)) :
    Leads ⟨data, .datum []⟩ (forms.flatMap Form.lexemes)
      ⟨(forms.map Form.value).reverse ++ data, .datum []⟩ := by
  induction forms generalizing data with
  | nil => exact leads_nil.mpr rfl
  | cons f forms ih =>
    rw [List.flatMap_cons] at h ⊢
    have hf := f.leads_complete data [] (h.of_subset (by simp))
    have hforms := ih (f.value :: data) (h.of_subset (by simp))
    rw [List.map_cons, List.reverse_cons, List.append_assoc]
    exact leads_append.mpr ⟨_, hf, hforms⟩

/-! ## What is read are lexemes of forms -/

/-- Lexemes without blanks of which every ellipsis has the count that its digits denote, if it has
any. -/
def IsPlain (L : List (Kind × Text)) : Prop :=
  ∀ l ∈ L, l.1.isBlank = false ∧ (l.1 = .ellipsis → ∀ n, repeatCount l.2 = .ok n →
    n = Text.decimalNumber (l.2.dropWhile (· = '.')))

@[simp] theorem isPlain_cons {l : Kind × Text} : IsPlain (l :: L) ↔
    (l.1.isBlank = false ∧ (l.1 = .ellipsis → ∀ n, repeatCount l.2 = .ok n →
      n = Text.decimalNumber (l.2.dropWhile (· = '.')))) ∧ IsPlain L :=
  List.forall_mem_cons

@[simp] theorem isPlain_append : IsPlain (L ++ L') ↔ IsPlain L ∧ IsPlain L' :=
  List.forall_mem_append

/-- A datum that is needed to get to a state in which nothing is pending is begun at once. -/
theorem exists_begins (hplain : IsPlain L)
    (hframes : ∀ b read outer, frames ≠ .items b read :: outer)
    (h : Leads ⟨data, .datum frames⟩ L s) (hs : s.pending ≠ .datum frames) :
    ∃ l L₁ s₁, L = l :: L₁ ∧ Begins data frames l s₁ ∧ s₁.Leads L₁ s := by
  cases L with
  | nil =>
    obtain rfl := leads_nil.mp h
    exact absurd rfl hs
  | cons l L₁ =>
    obtain ⟨s₁, hstep, hleads⟩ := leads_cons.mp h
    rcases (step_datum_iff (isPlain_cons.mp hplain).1.1).mp hstep with hb | ⟨b, read, outer, heq, -⟩
    · exact ⟨l, L₁, s₁, rfl, hb, hleads⟩
    · exact absurd heq (hframes b read outer)

theorem exists_closer {list : Datum} (hplain : IsPlain L)
    (h : Leads ⟨data, .closer b list frames⟩ L s) (hs : s.pending = .datum []) :
    ∃ t L₁, L = (.closer b, t) :: L₁ ∧ (complete data list frames).Leads L₁ s := by
  cases L with
  | nil =>
    obtain rfl := leads_nil.mp h
    cases hs
  | cons l L₁ =>
    obtain ⟨k, t⟩ := l
    obtain ⟨s₁, hstep, hleads⟩ := leads_cons.mp h
    obtain ⟨hk, rfl⟩ := (step_closer_iff (isPlain_cons.mp hplain).1.1).mp hstep
    obtain rfl : k = .closer b := hk
    exact ⟨t, L₁, rfl, hleads⟩

/-- If a form is begun at the front of the lexemes, a form is read from them. -/
def FormsRead (s : Progress) : List (Kind × Text) → Prop
  | [] => True
  | l :: L => ∀ data frames s₁, Begins data frames l s₁ → s₁.Leads L s →
    ∃ f L', l :: L = Form.lexemes f ++ L' ∧ (complete data f.value frames).Leads L' s

def TailsRead (s : Progress) (L : List (Kind × Text)) : Prop :=
  ∀ data b read frames, read ≠ [] → Leads ⟨data, .datum (.items b read :: frames)⟩ L s →
    ∃ r L', L = FormTail.lexemes b r ++ L' ∧
      (complete data (.ofItems read.reverse r.value) frames).Leads L' s

theorem Form.suffix_of_append (f : Form) {l : Kind × Text} (h : l :: L = f.lexemes ++ L') :
    L' <:+ L := by
  obtain ⟨l', L₁, hf, -⟩ := f.exists_cons
  rw [hf, List.cons_append] at h
  exact ⟨L₁, (List.cons.inj h).2.symm⟩

theorem lexemes_ofAtom? {f : Form} (h : Form.ofAtom? k t = some f) : f.lexemes = [(k, t)] := by
  cases k <;> simp only [Form.ofAtom?, Option.some.injEq, reduceCtorEq] at h <;> subst h <;> rfl

theorem formsRead_cons {l : Kind × Text} (hplain : IsPlain (l :: L)) (hs : s.pending = .datum [])
    (ih : ∀ L', L' <:+ L → FormsRead s L' ∧ TailsRead s L') : FormsRead s (l :: L) := by
  intro data frames s₁ hbegins hleads
  have hrest := (isPlain_cons.mp hplain).2
  cases hbegins with
  | @atom k t f hf => exact ⟨f, L, by rw [lexemes_ofAtom? hf]; rfl, hleads⟩
  | abbreviation a t =>
    obtain ⟨l, L, s₂, rfl, hb, hleads⟩ := exists_begins hrest (by simp) hleads (by simp [hs])
    obtain ⟨f, L', heq, hdone⟩ := (ih _ List.suffix_rfl).1 _ _ _ hb hleads
    exact ⟨.abbreviated a t f, L', by simp [Form.lexemes, heq], hdone⟩
  | opener b t =>
    cases L with
    | nil =>
      obtain rfl := leads_nil.mp hleads
      cases hs
    | cons l L =>
      obtain ⟨s₂, hstep, hleads⟩ := leads_cons.mp hleads
      rcases (step_datum_iff (isPlain_cons.mp hrest).1.1).mp hstep with
        hb | ⟨b', read, outer, heq, he⟩
      · obtain ⟨first, L', heq, hfirst⟩ := (ih _ List.suffix_rfl).1 _ _ _ hb hleads
        obtain ⟨r, L'', rfl, hdone⟩ := (ih L' ⟨_, heq.symm⟩).2 data b [first.value] frames
          (by simp) hfirst
        exact ⟨.list b t first r, L'', by simp [Form.lexemes, heq], hdone⟩
      · obtain ⟨⟨rfl, rfl⟩, rfl⟩ : (b = b' ∧ read = []) ∧ outer = frames := by
          simpa [eq_comm] using heq
        cases he with
        | closer t' => exact ⟨.empty b t t', L, by simp [Form.lexemes], hleads⟩
        | dot t' hread => exact absurd rfl hread
        | ellipsis hread => exact absurd rfl hread

theorem tailsRead_cons {l : Kind × Text} (hplain : IsPlain (l :: L)) (hs : s.pending = .datum [])
    (hform : FormsRead s (l :: L)) (ih : ∀ L', L' <:+ L → FormsRead s L' ∧ TailsRead s L') :
    TailsRead s (l :: L) := by
  intro data b read frames hread hleads
  obtain ⟨s₁, hstep, hrest⟩ := leads_cons.mp hleads
  have hcount := (isPlain_cons.mp hplain).1.2
  have hblank := (isPlain_cons.mp hplain).1.1
  have htail := (isPlain_cons.mp hplain).2
  rcases (step_datum_iff hblank).mp hstep with hb | ⟨b', read', outer, heq, he⟩
  · obtain ⟨f, L', heq, hf⟩ := hform _ _ _ hb hrest
    have hsuffix := f.suffix_of_append heq
    obtain ⟨r, L'', rfl, hdone⟩ := (ih L' hsuffix).2 data b (f.value :: read) frames (by simp) hf
    rw [List.reverse_cons, Datum.ofItems_concat] at hdone
    exact ⟨.item f r, L'', by simp [FormTail.lexemes, heq], hdone⟩
  · obtain ⟨⟨rfl, rfl⟩, rfl⟩ : (b = b' ∧ read = read') ∧ frames = outer := by simpa using heq
    cases he with
    | closer t => exact ⟨.close t, L, by simp [FormTail.lexemes], hrest⟩
    | dot t =>
      obtain ⟨l, L, s₂, rfl, hb, hrest⟩ := exists_begins htail (by simp) hrest (by simp [hs])
      obtain ⟨f, L', heq, hf⟩ := (ih _ List.suffix_rfl).1 _ _ _ hb hrest
      rw [heq] at htail
      obtain ⟨t', L'', rfl, hdone⟩ := exists_closer (isPlain_append.mp htail).2 hf hs
      exact ⟨.dotted t f t', L'', by simp [FormTail.lexemes, heq], hdone⟩
    | @ellipsis t n _ hn =>
      obtain ⟨t', L', rfl, hdone⟩ := exists_closer htail hrest hs
      obtain rfl := hcount rfl n hn
      exact ⟨.repeated t t', L', by simp [FormTail.lexemes], hdone⟩

theorem forms_and_tails_read (hplain : IsPlain L) (hs : s.pending = .datum []) :
    ∀ L', L' <:+ L → FormsRead s L' ∧ TailsRead s L' := by
  -- all suffixes at once, because a form takes any number of lexemes off the front
  induction L with
  | nil =>
    intro L' hsuffix
    obtain rfl := List.suffix_nil.mp hsuffix
    refine ⟨trivial, fun data b read frames _ hleads => ?_⟩
    obtain rfl := leads_nil.mp hleads
    cases hs
  | cons l L ih =>
    intro L' hsuffix
    have ih := ih (isPlain_cons.mp hplain).2
    rcases List.suffix_cons_iff.mp hsuffix with rfl | hsuffix
    · have hform := formsRead_cons hplain hs ih
      exact ⟨hform, tailsRead_cons hplain hs hform ih⟩
    · exact ih L' hsuffix

/-- Lexemes that are read without anything left pending are those of forms, whose values are the
data that are read. -/
theorem exists_forms {data' : List Datum} (hplain : IsPlain L)
    (h : Leads ⟨data, .datum []⟩ L ⟨data', .datum []⟩) : ∃ forms : List Form,
      L = forms.flatMap Form.lexemes ∧ data' = (forms.map Form.value).reverse ++ data := by
  induction hn : L.length using Nat.strong_induction_on generalizing L data with
  | _ n ih =>
    cases L with
    | nil =>
      obtain ⟨rfl, -⟩ := Progress.mk.injEq .. ▸ leads_nil.mp h
      exact ⟨[], rfl, rfl⟩
    | cons l L =>
      obtain ⟨s₁, hstep, hleads⟩ := leads_cons.mp h
      rcases (step_datum_iff (isPlain_cons.mp hplain).1.1).mp hstep with
        hb | ⟨b, read, outer, heq, -⟩
      · obtain ⟨f, L', heq, hf⟩ :=
          (forms_and_tails_read hplain rfl _ List.suffix_rfl).1 _ _ _ hb hleads
        have hlength : L'.length < n := by
          have hle := (f.suffix_of_append heq).length_le
          rw [← hn, List.length_cons]
          omega
        rw [heq] at hplain
        obtain ⟨forms, rfl, rfl⟩ := ih _ hlength (isPlain_append.mp hplain).2 hf rfl
        exact ⟨f :: forms, by simp [heq], by simp⟩
      · cases heq

end SExpr
