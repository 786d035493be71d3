import SExpr.Proofs.Reading.Grammar

/-!
# The texts that are read

A text is read if its lexemes are those of forms and no count in it is too long. The forms are then
the only ones, and the data are their values.
-/
namespace SExpr

variable {source filename : Text} {token : Token} {data : List Datum} {k : Kind} {t : Text}
  {L : List (Kind × Text)} {s s' : Progress}

theorem is_of_mem_tokenize (h : token ∈ tokenize source false) :
    Lexeme.Is token.kind token.text ∧ token.kind.isBlank = false := by
  have hmem : token ∈ withoutBlanks (tokenize source) := h
  obtain ⟨hmem, hblank⟩ := List.mem_filter.mp hmem
  refine ⟨(cut_tokenize source).is token.lexeme (List.mem_map_of_mem hmem), ?_⟩
  simpa using hblank

theorem repeatCount_of_mem_tokenize (h : token ∈ tokenize source false)
    (hk : token.kind = .ellipsis) : repeatCount token.text =
      if CountError.digitLimit < token.text.countP Char.isDigit then
        .error (.tooLong (token.text.countP Char.isDigit))
      else .ok (Text.decimalNumber (token.text.dropWhile (· = '.'))) := by
  have his := (is_of_mem_tokenize h).1
  rw [hk] at his
  exact repeatCount_of_isEllipsis his

theorem isPlain_tokenize (source : Text) : IsPlain ((tokenize source false).map Token.lexeme) := by
  intro l hl
  obtain ⟨token, htoken, rfl⟩ := List.mem_map.mp hl
  refine ⟨(is_of_mem_tokenize htoken).2, fun hk n hn => ?_⟩
  have hn : repeatCount token.text = .ok n := hn
  rw [repeatCount_of_mem_tokenize htoken hk] at hn
  split_ifs at hn
  exact (Except.ok.inj hn).symm

/-- The counts in a text have no more digits than a count may have. -/
def CountsShort (tokens : List Token) : Prop :=
  ∀ token ∈ tokens, token.kind = .ellipsis →
    token.text.countP Char.isDigit ≤ CountError.digitLimit

theorem countsRead_tokenize (h : CountsShort (tokenize source false)) :
    CountsRead ((tokenize source false).map Token.lexeme) := by
  intro t ht
  obtain ⟨token, htoken, heq⟩ := List.mem_map.mp ht
  obtain ⟨hk, rfl⟩ : token.kind = .ellipsis ∧ token.text = t := Prod.mk.injEq .. ▸ heq
  rw [repeatCount_of_mem_tokenize htoken hk, if_neg (Nat.not_lt.mpr (h token htoken hk))]

/-- Texts whose lexemes are those of forms are read as the values of the forms. -/
theorem parse_forms {forms : List Form}
    (h : (tokenize source false).map Token.lexeme = forms.flatMap Form.lexemes)
    (hcounts : CountsShort (tokenize source false)) :
    parse source filename = .ok (forms.map Form.value) := by
  have hread := countsRead_tokenize hcounts
  rw [parse_eq_ok, h]
  rw [h] at hread
  simpa using leads_forms forms [] hread

theorem Progress.known_of_step {l : Kind × Text} (h : s.step l = .ok s') :
    l.1 ≠ .unknown ∧ (l.1 = .ellipsis → ∃ n, repeatCount l.2 = .ok n) := by
  obtain ⟨k, t⟩ := l
  refine ⟨?_, ?_⟩
  · intro hk
    obtain rfl : k = .unknown := hk
    rw [step_unknown] at h
    cases h
  · intro hk
    obtain rfl : k = .ellipsis := hk
    obtain ⟨data, frames | ⟨b, list, frames⟩⟩ := s
    · rcases (step_datum_iff rfl).mp h with hb | ⟨b, read, outer, rfl, he⟩
      · cases hb.startsForm
      · cases he with
        | ellipsis _ hn => exact ⟨_, hn⟩
    · cases ((step_closer_iff rfl).mp h).1

theorem Progress.known_of_leads (h : s.Leads L s') : ∀ l ∈ L,
    l.1 ≠ .unknown ∧ (l.1 = .ellipsis → ∃ n, repeatCount l.2 = .ok n) := by
  induction L generalizing s with
  | nil => simp
  | cons l L ih =>
    obtain ⟨s₁, hstep, hleads⟩ := leads_cons.mp h
    exact List.forall_mem_cons.mpr ⟨known_of_step hstep, ih hleads⟩

theorem known_of_parse (h : parse source filename = .ok data) :
    (∀ token ∈ tokenize source false, token.kind ≠ .unknown) ∧
      CountsShort (tokenize source false) := by
  have hknown := Progress.known_of_leads (parse_eq_ok.mp h)
  refine ⟨fun token htoken => (hknown _ (List.mem_map_of_mem htoken)).1, ?_⟩
  intro token htoken hk
  obtain ⟨n, hn⟩ := (hknown _ (List.mem_map_of_mem htoken)).2 hk
  have hn : repeatCount token.text = .ok n := hn
  rw [repeatCount_of_mem_tokenize htoken hk] at hn
  by_contra hlong
  rw [if_pos (Nat.not_le.mp hlong)] at hn
  cases hn

theorem forms_of_parse (h : parse source filename = .ok data) : ∃ forms : List Form,
    (tokenize source false).map Token.lexeme = forms.flatMap Form.lexemes ∧
      data = forms.map Form.value := by
  obtain ⟨forms, hlexemes, hvalues⟩ := exists_forms (isPlain_tokenize source) (parse_eq_ok.mp h)
  refine ⟨forms, hlexemes, ?_⟩
  simpa using hvalues

/-- A text is read exactly if it has no unknown tokens, its lexemes are those of forms, and no count
is too long. Its forms are then unique, and the data read are their values. -/
theorem parse_iff_forms (source filename : Text) :
    ((∃ data, parse source filename = .ok data) ↔
      (∀ token ∈ tokenize source false, token.kind ≠ .unknown) ∧
      (∃ forms : List Form,
        (tokenize source false).map Token.lexeme = forms.flatMap Form.lexemes) ∧
      ∀ token ∈ tokenize source false, token.kind = .ellipsis →
        token.text.countP Char.isDigit ≤ 4300) ∧
    ∀ data, parse source filename = .ok data → ∃ forms : List Form,
      (tokenize source false).map Token.lexeme = forms.flatMap Form.lexemes ∧
      (∀ forms' : List Form,
        (tokenize source false).map Token.lexeme = forms'.flatMap Form.lexemes → forms' = forms) ∧
      data = forms.map Form.value := by
  refine ⟨⟨fun h => ?_, fun h => ?_⟩, fun data h => ?_⟩
  · obtain ⟨data, hdata⟩ := h
    obtain ⟨hknown, hcounts⟩ := known_of_parse hdata
    obtain ⟨forms, hforms, -⟩ := forms_of_parse hdata
    exact ⟨hknown, ⟨forms, hforms⟩, hcounts⟩
  · obtain ⟨-, ⟨forms, hforms⟩, hcounts⟩ := h
    exact ⟨_, parse_forms hforms hcounts⟩
  · obtain ⟨forms, hforms, hdata⟩ := forms_of_parse h
    refine ⟨forms, hforms, fun forms' hforms' => ?_, hdata⟩
    exact flatMap_lexemes_inj (hforms'.symm.trans hforms)

end SExpr
