import Mathlib.Data.List.TakeWhile
import SExpr.Lexeme.Classify
import SExpr.Lexeme.Language

/-!
# What the first character of a lexeme tells

The first character leaves at most three kinds open, and it settles what may follow it. There is one
statement for each group of first characters; the groups are those that the scanner tells apart.
-/
namespace SExpr

namespace CharClass

theorem not_isAlpha_of_isDigit {c : Char} (h : c.isDigit = true) : c.isAlpha = false := by
  have hdigit : (decide ('0'.val ≤ c.val) && decide (c.val ≤ '9'.val)) = true := h
  have halpha : c.isAlpha = (decide ('A'.val ≤ c.val ∧ c.val ≤ 'Z'.val) ||
      (decide ('a'.val ≤ c.val) && decide (c.val ≤ 'z'.val))) := rfl
  rw [halpha]
  simp [UInt32.le_iff_toNat_le] at hdigit ⊢
  omega

theorem not_symbolStart_of_digit {c : Char} (h : c.isDigit = true) :
    symbolStart.contains c = false := by
  rw [Bool.eq_false_iff]
  intro hs
  simp only [contains, Bool.or_eq_true, List.contains_iff_mem] at hs
  rcases hs with hs | hs
  · rw [not_isAlpha_of_isDigit h] at hs
    cases hs
  · have hp : symbolPunctuation.all (!·.isDigit) = true := by decide
    have hc := List.all_eq_true.mp hp c hs
    simp [h] at hc

theorem eq_of_isWhitespace {c : Char} (h : c.isWhitespace = true) :
    c = ' ' ∨ c = '\t' ∨ c = '\r' ∨ c = '\n' := by
  simpa [Char.isWhitespace, or_assoc] using h

theorem not_symbolStart_of_isWhitespace {c : Char} (h : c.isWhitespace = true) :
    symbolStart.contains c = false := by
  rcases eq_of_isWhitespace h with rfl | rfl | rfl | rfl <;> decide

end CharClass

namespace Lexeme

variable {c : Char} {more : Text} {k k₀ : Kind}

theorem is_of_ne_unknown (h : k ≠ .unknown) (t : Text) : Is k t ↔ IsKnown k t := by
  cases k <;> first | exact Iff.rfl | exact absurd rfl h

theorem isRun_cons {p : CharClass} : IsRun p (c :: more) ↔
    p.contains c = true ∧ ∀ d ∈ more, p.contains d = true := by
  simp [IsRun]

theorem isRun_singleton {p : CharClass} : IsRun p [c] ↔ p.contains c = true := by
  simp [IsRun]

/-- Digits and then, perhaps, a point and digits; there may be no digits at all. -/
def IsNumberEnd (t : Text) : Prop :=
  (∀ d ∈ t, CharClass.digit.contains d = true) ∨
    ∃ whole fraction, (∀ d ∈ whole, CharClass.digit.contains d = true) ∧
      (∀ d ∈ fraction, CharClass.digit.contains d = true) ∧ t = whole ++ '.' :: fraction

theorem isNumberEnd_cons : IsNumberEnd (c :: more) ↔
    CharClass.digit.contains c = true ∧ IsNumberEnd more ∨
      c = '.' ∧ ∀ d ∈ more, CharClass.digit.contains d = true := by
  constructor
  · rintro (hall | ⟨_ | ⟨w, whole⟩, fraction, hw, hf, heq⟩)
    · exact Or.inl ⟨hall c (by simp), Or.inl fun d hd => hall d (by simp [hd])⟩
    · obtain ⟨rfl, rfl⟩ := List.cons.inj heq
      exact Or.inr ⟨rfl, hf⟩
    · obtain ⟨rfl, rfl⟩ := List.cons.inj heq
      have hrest : ∀ d ∈ whole, CharClass.digit.contains d = true := fun d hd => hw d (by simp [hd])
      exact Or.inl ⟨hw c (by simp), Or.inr ⟨whole, fraction, hrest, hf, rfl⟩⟩
  · rintro (⟨hc, hall | ⟨whole, fraction, hw, hf, rfl⟩⟩ | ⟨rfl, hf⟩)
    · exact Or.inl (by simpa using ⟨hc, hall⟩)
    · exact Or.inr ⟨c :: whole, fraction, by simpa using ⟨hc, hw⟩, hf, rfl⟩
    · exact Or.inr ⟨[], more, by simp, hf, rfl⟩

/-- Of the texts that may end a number, those with a digit are numbers themselves. -/
theorem isUnsigned_iff {t : Text} :
    IsUnsigned t ↔ IsNumberEnd t ∧ ∃ d ∈ t, CharClass.digit.contains d = true := by
  constructor
  · rintro (hrun | ⟨whole, fraction, hw, hf, rfl⟩ | ⟨fraction, hf, rfl⟩)
    · obtain ⟨d, hd⟩ := List.exists_mem_of_ne_nil t hrun.1
      exact ⟨Or.inl hrun.2, d, hd, hrun.2 d hd⟩
    · obtain ⟨d, hd⟩ := List.exists_mem_of_ne_nil whole hw.1
      refine ⟨Or.inr ⟨whole, fraction, hw.2, ?_, rfl⟩, d, by simp [hd], hw.2 d hd⟩
      rcases hf with rfl | hf
      · simp
      · exact hf.2
    · obtain ⟨d, hd⟩ := List.exists_mem_of_ne_nil fraction hf.1
      exact ⟨Or.inr ⟨[], fraction, by simp, hf.2, rfl⟩, d, by simp [hd], hf.2 d hd⟩
  · rintro ⟨hall | ⟨whole, fraction, hw, hf, rfl⟩, d, hd, hdigit⟩
    · exact Or.inl ⟨List.ne_nil_of_mem hd, hall⟩
    · rcases List.mem_append.mp hd with hd | hd
      · have hwhole : IsRun .digit whole := ⟨List.ne_nil_of_mem hd, hw⟩
        refine Or.inr (Or.inl ⟨whole, fraction, hwhole, ?_, rfl⟩)
        exact (eq_or_ne fraction []).imp_right fun hne => ⟨hne, hf⟩
      · rcases List.mem_cons.mp hd with rfl | hd
        · exact absurd hdigit (by decide)
        · have hfraction : IsRun .digit fraction := ⟨List.ne_nil_of_mem hd, hf⟩
          rcases whole with _ | ⟨w, whole⟩
          · exact Or.inr (Or.inr ⟨fraction, hfraction, rfl⟩)
          · exact Or.inr (Or.inl ⟨w :: whole, fraction, ⟨by simp, hw⟩, Or.inr hfraction, rfl⟩)

theorem isUnsigned_digit_iff (h : c.isDigit = true) :
    IsUnsigned (c :: more) ↔ IsNumberEnd more := by
  have hdigit : CharClass.digit.contains c = true := h
  have hpoint : c ≠ '.' := by rintro rfl; simp at h
  simp [isUnsigned_iff, isNumberEnd_cons, hdigit, hpoint]

theorem isUnsigned_point_iff : IsUnsigned ('.' :: more) ↔ IsRun .digit more := by
  have hdigit : CharClass.digit.contains '.' = false := by decide
  rw [isUnsigned_iff, isNumberEnd_cons]
  constructor
  · rintro ⟨⟨h, -⟩ | ⟨-, hall⟩, d, hd, hd'⟩
    · simp [hdigit] at h
    · rcases List.mem_cons.mp hd with rfl | hd
      · simp [hdigit] at hd'
      · exact ⟨List.ne_nil_of_mem hd, hall⟩
  · rintro ⟨hne, hall⟩
    obtain ⟨d, hd⟩ := List.exists_mem_of_ne_nil more hne
    exact ⟨Or.inr ⟨rfl, hall⟩, d, by simp [hd], hall d hd⟩

theorem IsUnsigned.first (h : IsUnsigned (c :: more)) : c.isDigit = true ∨ c = '.' :=
  (isNumberEnd_cons.mp (isUnsigned_iff.mp h).1).imp And.left And.left

/-- The characters that lexemes of a kind start with. Unknown text takes the others. -/
def starts : Kind → Char → Bool
  | .opener .round, c => c = '('
  | .opener .square, c => c = '['
  | .closer .round, c => c = ')'
  | .closer .square, c => c = ']'
  | .dot, c => c = '.'
  | .ellipsis, c => c = '.'
  | .abbreviation .quote, c => c = '\''
  | .abbreviation .quasiquote, c => c = '`'
  | .abbreviation _, c => c = ','
  | .number, c => c.isDigit || c = '-' || c = '.'
  | .boolean, c => c = '#'
  | .symbol, c => CharClass.symbolStart.contains c
  | .whitespace, c => c.isWhitespace
  | .lineComment, c => c = ';'
  | .unknown, _ => false
  | .endOfInput, _ => false

theorem isNumeral_cons :
    IsNumeral (c :: more) ↔ IsUnsigned (c :: more) ∨ c = '-' ∧ IsUnsigned more := by
  constructor
  · rintro (h | ⟨u, hu, heq⟩)
    · exact Or.inl h
    · obtain ⟨rfl, rfl⟩ := List.cons.inj heq
      exact Or.inr ⟨rfl, hu⟩
  · rintro (h | ⟨rfl, h⟩)
    · exact Or.inl h
    · exact Or.inr ⟨more, h, rfl⟩

theorem isSymbolName_cons : IsSymbolName (c :: more) ↔
    (CharClass.symbolStart.contains c = true ∧ ∀ d ∈ more, CharClass.symbol.contains d = true) ∧
      ¬ (c = '-' ∧ ∃ d ∈ more.head?, d.isDigit = true) := by
  unfold IsSymbolName
  refine and_congr ?_ (not_congr ?_)
  · simp [and_assoc]
  · cases more <;> simp [CharClass.contains, and_assoc]

theorem isEllipsis_cons : IsEllipsis (c :: more) ↔
    c = '.' ∧ (more = ['.', '.'] ∨ ∃ digits, IsRun .digit digits ∧ more = '.' :: digits) := by
  constructor
  · rintro (h | ⟨digits, hd, h⟩) <;> obtain ⟨rfl, rfl⟩ := List.cons.inj h
    · exact ⟨rfl, Or.inl rfl⟩
    · exact ⟨rfl, Or.inr ⟨digits, hd, rfl⟩⟩
  · rintro ⟨rfl, rfl | ⟨digits, hd, rfl⟩⟩
    · exact Or.inl rfl
    · exact Or.inr ⟨digits, hd, rfl⟩

theorem head?_of_ellipsis
    (h : more = ['.', '.'] ∨ ∃ digits, IsRun .digit digits ∧ more = '.' :: digits) :
    more.head? = some '.' := by
  rcases h with rfl | ⟨digits, -, rfl⟩ <;> rfl

theorem isComment_cons :
    IsComment (c :: more) ↔ c = ';' ∧ ∀ d ∈ more, d ≠ '\r' ∧ d ≠ '\n' := by
  simp [IsComment, and_assoc]

theorem IsKnown.starts (h : IsKnown k (c :: more)) : starts k c = true := by
  rcases k with (_ | _) | (_ | _) | _ | _ | (_ | _ | _ | _) | _ | _ | _ | _ | _ | _ | _
  case number =>
    rcases isNumeral_cons.mp h with h | h
    · rcases h.first with h | h <;> simp [Lexeme.starts, h]
    · simp [Lexeme.starts, h]
  case symbol => exact (isSymbolName_cons.mp h).1.1
  case whitespace => exact (isRun_cons.mp h).1
  case ellipsis => simp [Lexeme.starts, (isEllipsis_cons.mp h).1]
  case lineComment => simp [Lexeme.starts, (isComment_cons.mp h).1]
  all_goals simp [IsKnown, Lexeme.starts] at h ⊢
  case boolean => exact h.elim And.left And.left
  all_goals exact h.1

theorem exists_isKnown (h : starts k c = true) : ∃ more, IsKnown k (c :: more) := by
  rcases k with (_ | _) | (_ | _) | _ | _ | (_ | _ | _ | _) | _ | _ | _ | _ | _ | _ | _
  case number =>
    simp only [starts, Bool.or_eq_true, decide_eq_true_eq] at h
    rcases h with (h | rfl) | rfl
    · exact ⟨[], Or.inl ((isUnsigned_digit_iff h).mpr (Or.inl (by simp)))⟩
    · exact ⟨['0'], isNumeral_cons.mpr (Or.inr ⟨rfl, Or.inl (by simp [IsRun]; decide)⟩)⟩
    · exact ⟨['0'], Or.inl (isUnsigned_point_iff.mpr (by simp [IsRun]; decide))⟩
  case symbol => exact ⟨[], isSymbolName_cons.mpr ⟨⟨h, by simp⟩, by simp⟩⟩
  case whitespace => exact ⟨[], isRun_cons.mpr ⟨h, by simp⟩⟩
  all_goals simp [starts] at h
  all_goals simp [IsKnown, h, isEllipsis_cons, isComment_cons]
  case lineComment => exact ⟨[], by simp⟩

theorem isUnknown_cons : IsUnknown (c :: more) ↔
    (CharClass.unknown.contains c = true ∧ ∀ d ∈ more, CharClass.unknown.contains d = true) ∧
      (c = '#' ∧ more.head? ≠ some 't' ∧ more.head? ≠ some 'f' ∨ ∀ k, starts k c = false) := by
  have hnone : (∀ k more, ¬ IsKnown k (c :: more)) ↔ ∀ k, starts k c = false := by
    constructor
    · intro h k
      rw [Bool.eq_false_iff]
      intro hs
      obtain ⟨more, hk⟩ := exists_isKnown hs
      exact h k more hk
    · intro h k more hk
      simpa [h k] using hk.starts
  simp [IsUnknown, isRun_cons, hnone, and_assoc]

theorem Is.starts (h : Is k (c :: more)) :
    starts k c = true ∨ k = .unknown ∧ (c = '#' ∨ ∀ k, Lexeme.starts k c = false) := by
  by_cases hk : k = .unknown
  · subst hk
    refine Or.inr ⟨rfl, ?_⟩
    exact (isUnknown_cons.mp h).2.imp_left And.left
  · exact Or.inl ((is_of_ne_unknown hk _).mp h).starts

theorem Is.starts_of_starts (h : Is k (c :: more)) (hc : c ≠ '#')
    (h₀ : Lexeme.starts k₀ c = true) : Lexeme.starts k c = true := by
  rcases h.starts with hs | ⟨-, rfl | hnone⟩
  · exact hs
  · exact absurd rfl hc
  · simp [hnone k₀] at h₀

/-- The lexemes with a first character that starts lexemes of one kind only. -/
theorem is_iff_of_only {P : Prop} (hc : c ≠ '#') (hs : starts k₀ c = true)
    (honly : ∀ k ∈ Kind.all, starts k c = true → k = k₀) (hP : Is k₀ (c :: more) ↔ P) :
    Is k (c :: more) ↔ k = k₀ ∧ P := by
  constructor
  · intro hk
    obtain rfl := honly k k.mem_all (hk.starts_of_starts hc hs)
    exact ⟨rfl, hP.mp hk⟩
  · intro h
    obtain ⟨rfl, h⟩ := h
    exact hP.mpr h

theorem single?_eq_some (h : single? c = some k₀) :
    c ≠ '#' ∧ starts k₀ c = true ∧ (∀ k ∈ Kind.all, starts k c = true → k = k₀) ∧
      ∀ t, Is k₀ t ↔ t = [c] := by
  unfold single? at h
  split_ifs at h <;> cases h <;> subst c <;>
    exact ⟨by decide, by decide, by decide, fun _ => Iff.rfl⟩

theorem is_single_iff (h : single? c = some k₀) : Is k (c :: more) ↔ k = k₀ ∧ more = [] := by
  obtain ⟨hc, hs, honly, his⟩ := single?_eq_some h
  exact is_iff_of_only hc hs honly ((his _).trans (by simp))

theorem is_comma_iff : Is k (',' :: more) ↔
    k = .abbreviation .unquote ∧ more = [] ∨
      k = .abbreviation .unquoteSplicing ∧ more = ['@'] := by
  have hkinds : ∀ k ∈ Kind.all, starts k ',' = true →
      k = .abbreviation .unquote ∨ k = .abbreviation .unquoteSplicing := by decide
  constructor
  · intro hk
    have hs : starts (.abbreviation .unquote) ',' = true := rfl
    rcases hkinds k k.mem_all (hk.starts_of_starts (by decide) hs) with rfl | rfl
    · exact Or.inl ⟨rfl, by simpa [Is, IsKnown] using hk⟩
    · exact Or.inr ⟨rfl, by simpa [Is, IsKnown] using hk⟩
  · rintro (⟨rfl, rfl⟩ | ⟨rfl, rfl⟩) <;> rfl

theorem starts_digit (h : c.isDigit = true) : ∀ k ∈ Kind.all, starts k c = true → k = .number := by
  intro k _ hs
  rcases k with (_ | _) | (_ | _) | _ | _ | (_ | _ | _ | _) | _ | _ | _ | _ | _ | _ | _
  case number => rfl
  case symbol =>
    have := CharClass.not_symbolStart_of_digit h
    simp [starts, this] at hs
  case whitespace =>
    rcases CharClass.eq_of_isWhitespace hs with rfl | rfl | rfl | rfl <;> simp at h
  all_goals simp [starts] at hs
  all_goals subst hs; simp at h

theorem starts_symbolStart (h : CharClass.symbolStart.contains c = true) (hminus : c ≠ '-') :
    ∀ k ∈ Kind.all, starts k c = true → k = .symbol := by
  intro k _ hs
  rcases k with (_ | _) | (_ | _) | _ | _ | (_ | _ | _ | _) | _ | _ | _ | _ | _ | _ | _
  case symbol => rfl
  case number =>
    simp only [starts, Bool.or_eq_true, decide_eq_true_eq] at hs
    rcases hs with (hs | hs) | hs
    · simp [CharClass.not_symbolStart_of_digit hs] at h
    · exact absurd hs hminus
    · subst hs
      exact absurd h (by decide)
  case whitespace => simp [CharClass.not_symbolStart_of_isWhitespace hs] at h
  all_goals simp [starts] at hs
  all_goals subst hs; exact absurd h (by decide)

theorem is_digit_iff (h : c.isDigit = true) :
    Is k (c :: more) ↔ k = .number ∧ IsNumberEnd more := by
  have hc : c ≠ '#' := by rintro rfl; simp at h
  have hminus : c ≠ '-' := by rintro rfl; simp at h
  have hs : starts .number c = true := by simp [starts, h]
  have hnumber : Is .number (c :: more) ↔ IsNumberEnd more := by
    rw [← isUnsigned_digit_iff h]
    exact isNumeral_cons.trans (by simp [hminus])
  exact is_iff_of_only hc hs (starts_digit h) hnumber

theorem is_minus_iff : Is k ('-' :: more) ↔ k = .number ∧ IsUnsigned more ∨
    k = .symbol ∧ (∀ d ∈ more, CharClass.symbol.contains d = true) ∧
      ∀ d ∈ more.head?, d.isDigit = false := by
  have hkinds : ∀ k ∈ Kind.all, starts k '-' = true → k = .number ∨ k = .symbol := by decide
  have hnumber : Is .number ('-' :: more) ↔ IsUnsigned more := by
    refine isNumeral_cons.trans ⟨?_, fun h => Or.inr ⟨rfl, h⟩⟩
    rintro (h | ⟨-, h⟩)
    · exact absurd h.first (by decide)
    · exact h
  have hsymbol : Is .symbol ('-' :: more) ↔ (∀ d ∈ more, CharClass.symbol.contains d = true) ∧
      ∀ d ∈ more.head?, d.isDigit = false := by
    have hstart : CharClass.symbolStart.contains '-' = true := by decide
    exact isSymbolName_cons.trans (by simp [hstart])
  constructor
  · intro hk
    have hs : starts .number '-' = true := rfl
    rcases hkinds k k.mem_all (hk.starts_of_starts (by decide) hs) with rfl | rfl
    · exact Or.inl ⟨rfl, hnumber.mp hk⟩
    · exact Or.inr ⟨rfl, hsymbol.mp hk⟩
  · rintro (⟨rfl, h⟩ | ⟨rfl, h⟩)
    · exact hnumber.mpr h
    · exact hsymbol.mpr h

theorem is_point_iff : Is k ('.' :: more) ↔ k = .dot ∧ more = [] ∨
    k = .ellipsis ∧ (more = ['.', '.'] ∨ ∃ digits, IsRun .digit digits ∧ more = '.' :: digits) ∨
      k = .number ∧ IsRun .digit more := by
  have hkinds : ∀ k ∈ Kind.all, starts k '.' = true → k = .dot ∨ k = .ellipsis ∨ k = .number := by
    decide
  have hnumber : Is .number ('.' :: more) ↔ IsRun .digit more := by
    rw [← isUnsigned_point_iff]
    exact isNumeral_cons.trans (by simp)
  have hellipsis : Is .ellipsis ('.' :: more) ↔
      more = ['.', '.'] ∨ ∃ digits, IsRun .digit digits ∧ more = '.' :: digits :=
    isEllipsis_cons.trans (by simp)
  constructor
  · intro hk
    have hs : starts .dot '.' = true := rfl
    rcases hkinds k k.mem_all (hk.starts_of_starts (by decide) hs) with rfl | rfl | rfl
    · exact Or.inl ⟨rfl, by simpa [Is, IsKnown] using hk⟩
    · exact Or.inr (Or.inl ⟨rfl, hellipsis.mp hk⟩)
    · exact Or.inr (Or.inr ⟨rfl, hnumber.mp hk⟩)
  · rintro (⟨rfl, rfl⟩ | ⟨rfl, h⟩ | ⟨rfl, h⟩)
    · rfl
    · exact hellipsis.mpr h
    · exact hnumber.mpr h

theorem is_hash_iff : Is k ('#' :: more) ↔ k = .boolean ∧ (more = ['t'] ∨ more = ['f']) ∨
    k = .unknown ∧ (∀ d ∈ more, CharClass.unknown.contains d = true) ∧
      more.head? ≠ some 't' ∧ more.head? ≠ some 'f' := by
  have hkinds : ∀ k ∈ Kind.all, starts k '#' = true → k = .boolean := by decide
  have hboolean : Is .boolean ('#' :: more) ↔ more = ['t'] ∨ more = ['f'] := by
    simp [Is, IsKnown]
  have hunknown : Is .unknown ('#' :: more) ↔
      (∀ d ∈ more, CharClass.unknown.contains d = true) ∧
        more.head? ≠ some 't' ∧ more.head? ≠ some 'f' := by
    have hsome : ¬ ∀ k, starts k '#' = false := fun h => absurd (h .boolean) (by decide)
    have hc : CharClass.unknown.contains '#' = true := by decide
    exact isUnknown_cons.trans (by simp [hsome, hc])
  constructor
  · intro hk
    rcases hk.starts with hs | ⟨rfl, -⟩
    · obtain rfl := hkinds k k.mem_all hs
      exact Or.inl ⟨rfl, hboolean.mp hk⟩
    · exact Or.inr ⟨rfl, hunknown.mp hk⟩
  · rintro (⟨rfl, h⟩ | ⟨rfl, h⟩)
    · exact hboolean.mpr h
    · exact hunknown.mpr h

theorem is_symbolStart_iff (h : CharClass.symbolStart.contains c = true) (hminus : c ≠ '-') :
    Is k (c :: more) ↔ k = .symbol ∧ ∀ d ∈ more, CharClass.symbol.contains d = true := by
  have hc : c ≠ '#' := by rintro rfl; exact absurd h (by decide)
  have hsymbol : Is .symbol (c :: more) ↔ ∀ d ∈ more, CharClass.symbol.contains d = true :=
    isSymbolName_cons.trans (by simp [h, hminus])
  exact is_iff_of_only hc h (starts_symbolStart h hminus) hsymbol

theorem is_whitespace_iff (h : c.isWhitespace = true) :
    Is k (c :: more) ↔ k = .whitespace ∧ ∀ d ∈ more, d.isWhitespace = true := by
  have hc : c ≠ '#' := by rintro rfl; simp at h
  have honly : ∀ k ∈ Kind.all, starts k c = true → k = .whitespace := by
    rcases CharClass.eq_of_isWhitespace h with rfl | rfl | rfl | rfl <;> decide
  exact is_iff_of_only hc h honly (isRun_cons.trans (and_iff_right h))

theorem is_semicolon_iff : Is k (';' :: more) ↔
    k = .lineComment ∧ ∀ d ∈ more, d ≠ '\r' ∧ d ≠ '\n' :=
  is_iff_of_only (by decide) rfl (by decide) (isComment_cons.trans (and_iff_right rfl))

theorem starts_eq_false (hsingle : single? c = none) (hcomma : c ≠ ',') (hdigit : c.isDigit = false)
    (hpoint : c ≠ '.') (hhash : c ≠ '#') (hsymbol : ¬ CharClass.symbolStart.contains c = true)
    (hwhitespace : ¬ c.isWhitespace = true) (hsemicolon : c ≠ ';') (k : Kind) :
    starts k c = false := by
  have hminus : c ≠ '-' := by rintro rfl; exact hsymbol (by decide)
  rcases k with (_ | _) | (_ | _) | _ | _ | (_ | _ | _ | _) | _ | _ | _ | _ | _ | _ | _
  all_goals simp [starts, *]
  all_goals rintro rfl; simp [single?] at hsingle

theorem is_other_iff (h : ∀ k, starts k c = false) :
    Is k (c :: more) ↔ k = .unknown ∧ ∀ d ∈ more, CharClass.unknown.contains d = true := by
  have hc : CharClass.unknown.contains c = true := by
    have h1 := h (.opener .round)
    have h2 := h (.opener .square)
    have h3 := h (.closer .round)
    have h4 := h (.closer .square)
    have h5 := h .lineComment
    have h6 := h .whitespace
    simp only [starts, decide_eq_false_iff_not] at h1 h2 h3 h4 h5 h6
    simp [CharClass.contains, CharClass.unknownEnders, h1, h2, h3, h4, h5, h6]
  have hunknown : Is .unknown (c :: more) ↔ ∀ d ∈ more, CharClass.unknown.contains d = true :=
    isUnknown_cons.trans (by simp [hc, h])
  constructor
  · intro hk
    rcases hk.starts with hs | ⟨rfl, -⟩
    · simp [h k] at hs
    · exact ⟨rfl, hunknown.mp hk⟩
  · rintro ⟨rfl, hm⟩
    exact hunknown.mpr hm

end Lexeme

end SExpr
