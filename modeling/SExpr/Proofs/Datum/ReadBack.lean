import SExpr.Datum.Source
import SExpr.Proofs.Datum.Lexemes
import SExpr.Proofs.Number.Written

/-!
# Written data are read back

Every readable datum with finite numbers is written as a form that denotes it. Items and tails are
written with a space before each, so no two of their lexemes run together, and whole data are
written side by side in the same way.
-/
namespace SExpr

variable {d : Datum} {rest : Text} {L : List (Kind × Text)}

/-! ## Ellipses -/

theorem decimalNumber_eq {digits : Text} (h : ∀ c ∈ digits, c.isDigit = true) :
    Text.decimalNumber digits = Nat.ofDigitChars 10 digits 0 := by
  have hfold : ∀ n, digits.foldl (fun n c => 10 * n + (Text.decimalValue? c).getD 0) n =
      Nat.ofDigitChars 10 digits n := by
    induction digits with
    | nil => simp
    | cons c digits ih =>
      intro n
      obtain ⟨hc, hdigits⟩ := List.forall_mem_cons.mp h
      rw [List.foldl_cons, Text.decimalValue?_of_isDigit hc, Nat.ofDigitChars_cons]
      exact ih hdigits _
  exact hfold 0

theorem ellipsisSource_ofNat (n : Nat) : Datum.ellipsisSource n =
    if n = 0 then "...".toList else '.' :: '.' :: Text.ofNat n := by
  by_cases h : n = 0
  · subst h
    rfl
  · have hint : (n : Int) ≠ 0 := by omega
    rw [Datum.ellipsisSource, if_neg hint, if_neg h]
    rfl

/-- The text of an ellipsis is a lexeme that denotes its count and has as many digits as that. -/
theorem ellipsisSource_spec (n : Nat) : Lexeme.IsEllipsis (Datum.ellipsisSource n) ∧
    Text.decimalNumber ((Datum.ellipsisSource n).dropWhile (· = '.')) = n ∧
    (Datum.ellipsisSource n).countP Char.isDigit ≤ (Text.ofNat n).length := by
  rw [ellipsisSource_ofNat]
  by_cases h : n = 0
  · subst h
    exact ⟨Or.inl rfl, rfl, by decide⟩
  · have hdigits := Text.isDigit_ofNat n
    rw [if_neg h]
    refine ⟨Or.inr ⟨_, Text.isRun_ofNat n, rfl⟩, ?_, ?_⟩
    · have hdrop : ('.' :: '.' :: Text.ofNat n).dropWhile (· = '.') = Text.ofNat n :=
        dropWhile_point hdigits
      rw [hdrop, decimalNumber_eq hdigits]
      exact Decimal.valueOfDigits_ofNat n
    · rw [List.countP_cons_of_neg (by decide), List.countP_cons_of_neg (by decide)]
      exact List.countP_le_length

theorem length_ofNat_le_iff {n k : Nat} (hk : 0 < k) :
    (Text.ofNat n).length ≤ k ↔ n < Nat.pow 10 k :=
  Nat.length_toDigits_le_iff (by decide) hk

/-! ## Data and the forms in which they are written -/

/-- The text of the datum is that of a form that denotes it. -/
def WrittenAsForm (d : Datum) : Prop :=
  ∃ f : Form, f.value = d ∧ ∀ rest L, HasLexemes rest L → Delimited rest →
    HasLexemes (d.source ++ rest) (f.lexemes ++ L)

/-- What is written of the datum behind the items of a list ends the list and denotes the datum. -/
def WrittenAsTail (d : Datum) : Prop :=
  ∃ r : FormTail, r.value = d ∧ ∀ rest L, HasLexemes rest L →
    HasLexemes (spaced d.parts ++ ')' :: rest) (r.lexemes .round ++ L)

def Datum.ReadableTail (d : Datum) : Prop :=
  d.Readable ∨ ∃ n, d = .ellipsis n ∧ IsRepeatCount n

theorem Datum.ReadableTail.readable (h : d.ReadableTail) (hne : ∀ n, d ≠ .ellipsis n) :
    d.Readable := by
  rcases h with h | ⟨n, rfl, -⟩
  · exact h
  · exact absurd rfl (hne n)

theorem Datum.readable_cons {car cdr : Datum} (h : (cons car cdr).Readable) :
    car.Readable ∧ cdr.ReadableTail := by
  cases cdr with
  | ellipsis n =>
    obtain ⟨hcar, hcount⟩ : car.Readable ∧ IsRepeatCount n := h
    exact ⟨hcar, Or.inr ⟨n, rfl, hcount⟩⟩
  | _ => exact ⟨h.1, Or.inl h.2⟩

theorem delimited_closer (rest : Text) : Delimited (')' :: rest) :=
  delimited_cons rfl rest

theorem HasLexemes.closer (h : HasLexemes rest L) :
    HasLexemes (')' :: rest) ((.closer .round, [')']) :: L) :=
  h.cons_single rfl rfl (by simp)

theorem HasLexemes.opener (h : HasLexemes rest L) :
    HasLexemes ('(' :: rest) ((.opener .round, ['(']) :: L) :=
  h.cons_single rfl rfl (by simp)

theorem writtenAsForm_of_lexeme (f : Form) {k : Kind} (hvalue : f.value = d)
    (hlexemes : f.lexemes = [(k, d.source)]) (his : Lexeme.Is k d.source)
    (hk : k.isBlank = false) (hcount : k ≠ .ellipsis) : WrittenAsForm d := by
  refine ⟨f, hvalue, fun rest L h hrest => ?_⟩
  rw [hlexemes]
  exact h.cons his hk hrest (fun heq => absurd heq hcount)

theorem writtenAsTail_of_form (h : WrittenAsForm d) (hparts : d.parts = [['.'], d.source]) :
    WrittenAsTail d := by
  obtain ⟨f, hvalue, hform⟩ := h
  refine ⟨.dotted ['.'] f [')'], hvalue, fun rest L hrest => ?_⟩
  have hdatum := (hform _ _ hrest.closer (delimited_closer rest)).space
  have hpoint := hdatum.cons (k := .dot) (t := ['.']) rfl rfl (by intro c hc; cases hc; decide)
    (by simp)
  have htext : spaced d.parts ++ ')' :: rest =
      ' ' :: (['.'] ++ ' ' :: (d.source ++ ')' :: rest)) := by
    simp [hparts, spaced]
  have hlexemes : (FormTail.dotted ['.'] f [')']).lexemes .round ++ L =
      (.dot, ['.']) :: (f.lexemes ++ (.closer .round, [')']) :: L) := by
    simp [FormTail.lexemes]
  rw [htext, hlexemes]
  exact hpoint.space

theorem writtenAsTail_ellipsis {n : Int} (h : Datum.IsRepeatCount n) :
    WrittenAsTail (.ellipsis n) := by
  obtain ⟨hnonneg, hlt⟩ := h
  obtain ⟨m, rfl⟩ := Int.eq_ofNat_of_zero_le hnonneg
  obtain ⟨his, hvalue, hcount⟩ := ellipsisSource_spec m
  refine ⟨.repeated (Datum.ellipsisSource m) [')'], ?_, fun rest L hrest => ?_⟩
  · rw [FormTail.value, hvalue]
  · have htext : spaced (Datum.ellipsis m).parts ++ ')' :: rest =
        ' ' :: (Datum.ellipsisSource m ++ ')' :: rest) := by
      simp [spaced, Datum.parts]
    rw [htext]
    exact (hrest.closer.cons (k := .ellipsis) his rfl (delimited_closer rest)
      (fun _ => hcount.trans ((length_ofNat_le_iff (by decide)).mpr hlt))).space

theorem writtenAsTail_nil : WrittenAsTail .nil :=
  ⟨.close [')'], rfl, fun _ _ hrest => hrest.closer⟩

theorem writtenAsTail_cons {car cdr : Datum} (hcar : WrittenAsForm car)
    (hcdr : WrittenAsTail cdr) : WrittenAsTail (.cons car cdr) := by
  obtain ⟨f, rfl, hform⟩ := hcar
  obtain ⟨r, rfl, htail⟩ := hcdr
  refine ⟨.item f r, rfl, fun rest L hrest => ?_⟩
  have hfirst := (hform _ _ (htail rest L hrest) (delimited_spaced _ (delimited_closer rest))).space
  simpa [spaced, Datum.parts, FormTail.lexemes] using hfirst

theorem writtenAsForm_cons {car cdr : Datum} (hcar : WrittenAsForm car)
    (hcdr : WrittenAsTail cdr) : WrittenAsForm (.cons car cdr) := by
  obtain ⟨f, rfl, hform⟩ := hcar
  obtain ⟨r, rfl, htail⟩ := hcdr
  refine ⟨.list .round ['('] f r, rfl, fun rest L hrest _ => ?_⟩
  have hlist := (hform _ _ (htail rest L hrest)
    (delimited_spaced _ (delimited_closer rest))).opener
  rw [Datum.source, Datum.bracketed, join_cons]
  simpa [Form.lexemes] using hlist

theorem writtenAsForm_number {x : Binary64} (h : ∃ value, x = .finite value) :
    WrittenAsForm (.number x) := by
  obtain ⟨value, rfl⟩ := h
  apply writtenAsForm_of_lexeme (k := .number) (.number (Binary64.finite value).written)
  · rw [Form.value, Binary64.ofDecimal_written]
  · rfl
  · exact Binary64.isNumeral_written value
  · rfl
  · simp

theorem writtenAsForm_boolean (b : Bool) : WrittenAsForm (.boolean b) := by
  apply writtenAsForm_of_lexeme (k := .boolean) (.boolean (Datum.booleanSource b))
  · cases b <;> rfl
  · rfl
  · cases b
    · exact Or.inr rfl
    · exact Or.inl rfl
  · rfl
  · simp

theorem writtenAsForm_symbol {name : Text} (h : Lexeme.IsSymbolName name) :
    WrittenAsForm (.symbol name) := by
  apply writtenAsForm_of_lexeme (k := .symbol) (.symbol name)
  · rfl
  · rfl
  · exact h
  · rfl
  · simp

theorem writtenAsForm_nil : WrittenAsForm .nil :=
  ⟨.empty .round ['('] [')'], rfl, fun _ _ hrest _ => hrest.closer.opener⟩

/-- Readable data with finite numbers are written as what denotes them. -/
theorem writtenAs_of_readable (d : Datum) (hfinite : d.IsFinite) :
    (d.Readable → WrittenAsForm d) ∧ (d.ReadableTail → WrittenAsTail d) := by
  -- a datum that is no pair, no ellipsis and not `nil` is a tail behind a point
  have htail : ∀ {d : Datum}, d.parts = [['.'], d.source] → (∀ n, d ≠ .ellipsis n) →
      (d.Readable → WrittenAsForm d) → d.ReadableTail → WrittenAsTail d := by
    intro d hparts hne hform h
    exact writtenAsTail_of_form (hform (h.readable hne)) hparts
  induction d with
  | number x =>
    have hform : (Datum.number x).Readable → WrittenAsForm (.number x) :=
      fun _ => writtenAsForm_number hfinite
    exact ⟨hform, htail rfl (by simp) hform⟩
  | boolean b =>
    have hform : (Datum.boolean b).Readable → WrittenAsForm (.boolean b) :=
      fun _ => writtenAsForm_boolean b
    exact ⟨hform, htail rfl (by simp) hform⟩
  | symbol name =>
    have hform : (Datum.symbol name).Readable → WrittenAsForm (.symbol name) :=
      fun h => writtenAsForm_symbol h
    exact ⟨hform, htail rfl (by simp) hform⟩
  | nil => exact ⟨fun _ => writtenAsForm_nil, fun _ => writtenAsTail_nil⟩
  | cons car cdr ihcar ihcdr =>
    have hcar := (ihcar hfinite.1).1
    have hcdr := (ihcdr hfinite.2).2
    refine ⟨fun h => ?_, fun h => ?_⟩
    · obtain ⟨hreadable, htail⟩ := Datum.readable_cons h
      exact writtenAsForm_cons (hcar hreadable) (hcdr htail)
    · obtain ⟨hreadable, htail⟩ := Datum.readable_cons (h.readable (by simp))
      exact writtenAsTail_cons (hcar hreadable) (hcdr htail)
  | ellipsis n =>
    refine ⟨fun h => h.elim, fun h => ?_⟩
    rcases h with h | ⟨m, heq, hcount⟩
    · exact h.elim
    · cases heq
      exact writtenAsTail_ellipsis hcount

/-! ## Data side by side -/

theorem exists_forms_spaced {data : List Datum} (h : ∀ d ∈ data, WrittenAsForm d) :
    ∃ forms : List Form, forms.map Form.value = data ∧
      HasLexemes (spaced (data.map Datum.source)) (forms.flatMap Form.lexemes) := by
  induction data with
  | nil => exact ⟨[], rfl, hasLexemes_nil⟩
  | cons d data ih =>
    obtain ⟨⟨f, hvalue, hform⟩, hdata⟩ := List.forall_mem_cons.mp h
    obtain ⟨forms, hvalues, hlexemes⟩ := ih hdata
    refine ⟨f :: forms, by simp [hvalue, hvalues], ?_⟩
    exact (hform _ _ hlexemes (delimited_parts _)).space

theorem exists_forms_sideBySide {data : List Datum} (h : ∀ d ∈ data, WrittenAsForm d) :
    ∃ forms : List Form, forms.map Form.value = data ∧
      HasLexemes (Datum.sideBySide data) (forms.flatMap Form.lexemes) := by
  cases data with
  | nil => exact ⟨[], rfl, hasLexemes_nil⟩
  | cons d data =>
    obtain ⟨⟨f, hvalue, hform⟩, hdata⟩ := List.forall_mem_cons.mp h
    obtain ⟨forms, hvalues, hlexemes⟩ := exists_forms_spaced hdata
    refine ⟨f :: forms, by simp [hvalue, hvalues], ?_⟩
    rw [Datum.sideBySide, List.map_cons, join_cons]
    exact hform _ _ hlexemes (delimited_parts _)

/-- Readable data with finite numbers, written side by side, are read as the same data. -/
theorem parse_sideBySide (data : List Datum) (filename : Text)
    (h : ∀ d ∈ data, d.Readable ∧ d.IsFinite) :
    parse (Datum.sideBySide data) filename = .ok data := by
  have hwritten : ∀ d ∈ data, WrittenAsForm d := by
    intro d hd
    obtain ⟨hreadable, hfinite⟩ := h d hd
    exact (writtenAs_of_readable d hfinite).1 hreadable
  obtain ⟨forms, rfl, hlexemes⟩ := exists_forms_sideBySide hwritten
  exact hlexemes.parse filename

/-- A pattern for two or more repeats, and the negative zero. -/
theorem parse_sideBySide_pattern :
    parse (Datum.sideBySide [.cons (.symbol ['a']) (.ellipsis 2), .number (.finite (.zero true))]) =
      .ok [.cons (.symbol ['a']) (.ellipsis 2), .number (.finite (.zero true))] := by
  have hsymbol : Lexeme.IsSymbolName ['a'] := ⟨⟨'a', [], rfl, by decide, by simp⟩, by simp⟩
  have hcount : Datum.IsRepeatCount 2 := ⟨by decide, by decide +kernel⟩
  have hzero : Binary64.finite (.zero true) ≠ .nan := by simp
  apply parse_sideBySide
  intro d hd
  rcases List.mem_cons.mp hd with rfl | hd
  · exact ⟨⟨hsymbol, hcount⟩, trivial, trivial⟩
  · obtain rfl := List.mem_singleton.mp hd
    exact ⟨hzero, _, rfl⟩

end SExpr
