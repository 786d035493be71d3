import Mathlib.Data.List.TakeWhile
import SExpr.Lexeme.Language
import SExpr.Proofs.Number.Rounding

/-!
# Positional texts

The positional text of a decimal is a numeral, and it is read as a decimal of the same value. Zeros
in front of the digits do not count, and zeros behind them are what the exponent says.
-/
namespace SExpr

variable {t whole fraction : Text} {negative : Bool}

/-! ## Digits -/

theorem Text.isDigit_ofNat (n : Nat) : ∀ c ∈ Text.ofNat n, c.isDigit = true :=
  fun _ hc => Nat.isDigit_of_mem_toDigits (by decide) (by decide) hc

theorem Text.ofNat_ne_nil (n : Nat) : Text.ofNat n ≠ [] :=
  Nat.toDigits_ne_nil

theorem Text.isRun_ofNat (n : Nat) : Lexeme.IsRun .digit (Text.ofNat n) :=
  ⟨ofNat_ne_nil n, isDigit_ofNat n⟩

namespace Decimal

theorem valueOfDigits_ofNat (n : Nat) : valueOfDigits (Text.ofNat n) = n :=
  Nat.ofDigitChars_ten_toDigits

theorem valueOfDigits_append_zeros (n places : Nat) :
    valueOfDigits (Text.ofNat n ++ List.replicate places '0') = n * Nat.pow 10 places := by
  have hdigits : Nat.ofDigitChars 10 (Text.ofNat n) 0 = n := valueOfDigits_ofNat n
  rw [valueOfDigits, Nat.ofDigitChars_append, hdigits, Nat.ofDigitChars_replicate_zero,
    Nat.mul_comm]
  rfl

theorem valueOfDigits_leftpad (width n : Nat) :
    valueOfDigits (List.leftpad width '0' (Text.ofNat n)) = n := by
  rw [valueOfDigits, List.leftpad, Nat.ofDigitChars_append, Nat.ofDigitChars_replicate_zero,
    Nat.mul_zero]
  exact valueOfDigits_ofNat n

/-! ## Reading numerals -/

theorem takeWhile_digits (hw : ∀ c ∈ whole, c.isDigit = true) :
    whole.takeWhile Char.isDigit = whole :=
  List.takeWhile_eq_self_iff.mpr hw

theorem ofUnsigned_digits (hw : ∀ c ∈ whole, c.isDigit = true) :
    ofUnsigned negative whole = ⟨negative, valueOfDigits whole, 0⟩ := by
  have hdrop : whole.dropWhile Char.isDigit = [] := List.dropWhile_eq_nil_iff.mpr hw
  simp [ofUnsigned, takeWhile_digits hw, hdrop]

theorem ofUnsigned_point (hw : ∀ c ∈ whole, c.isDigit = true)
    (hf : ∀ c ∈ fraction, c.isDigit = true) : ofUnsigned negative (whole ++ '.' :: fraction) =
      ⟨negative, valueOfDigits (whole ++ fraction), -fraction.length⟩ := by
  have htake : (whole ++ '.' :: fraction).takeWhile Char.isDigit = whole := by
    rw [List.takeWhile_append_of_pos hw, List.takeWhile_cons_of_neg (by decide), List.append_nil]
  have hdrop : (whole ++ '.' :: fraction).dropWhile Char.isDigit = '.' :: fraction := by
    rw [List.dropWhile_append_of_pos hw, List.dropWhile_cons_of_neg (by decide)]
  simp [ofUnsigned, htake, hdrop, takeWhile_digits hf]

theorem ofPositional_signed (ht : ∀ c ∈ t.head?, c ≠ '-') :
    ofPositional (signed negative t) = ofUnsigned negative t := by
  cases negative with
  | true => rfl
  | false =>
    have hsigned : signed false t = t := rfl
    rw [hsigned]
    unfold ofPositional
    split
    · rename_i u
      exact absurd rfl (ht '-' rfl)
    · rfl

theorem head?_ne_minus (hne : whole ≠ []) (hw : ∀ c ∈ whole, c.isDigit = true) (more : Text) :
    ∀ c ∈ (whole ++ more).head?, c ≠ '-' := by
  obtain ⟨d, rest, rfl⟩ := List.exists_cons_of_ne_nil hne
  intro c hc
  obtain rfl : d = c := by simpa using hc
  intro hminus
  have hd := hw d (by simp)
  rw [hminus] at hd
  exact absurd hd (by decide)

theorem isNumeral_signed (h : Lexeme.IsUnsigned t) : Lexeme.IsNumeral (signed negative t) := by
  cases negative with
  | true => exact Or.inr ⟨t, h, rfl⟩
  | false => exact Or.inl h

/-! ## Positional texts are read back -/

theorem same_ofScaled (significand places : Nat) (exponent : Int) :
    (Ratio.ofScaled (significand * Nat.pow 10 places) 10 exponent).Same
      (Ratio.ofScaled significand 10 (exponent + places)) := by
  have hleft : Nat.pow 10 places * Nat.pow 10 exponent.toNat *
      Nat.pow 10 (-(exponent + places)).toNat =
        Nat.pow 10 (places + exponent.toNat + (-(exponent + places)).toNat) := by
    rw [Nat.pow_eq, Nat.pow_eq, Nat.pow_eq, Nat.pow_eq, Nat.pow_add, Nat.pow_add]
  have hright : Nat.pow 10 (exponent + places).toNat * Nat.pow 10 (-exponent).toNat =
      Nat.pow 10 ((exponent + places).toNat + (-exponent).toNat) := by
    rw [Nat.pow_eq, Nat.pow_eq, Nat.pow_eq, Nat.pow_add]
  have hsum : places + exponent.toNat + (-(exponent + places)).toNat =
      (exponent + places).toNat + (-exponent).toNat := by
    omega
  rw [Binary64.ofScaled_eq, Binary64.ofScaled_eq, Ratio.Same]
  calc significand * Nat.pow 10 places * Nat.pow 10 exponent.toNat *
        Nat.pow 10 (-(exponent + places)).toNat
      = significand * (Nat.pow 10 places * Nat.pow 10 exponent.toNat *
          Nat.pow 10 (-(exponent + places)).toNat) := by simp only [Nat.mul_assoc]
    _ = significand * (Nat.pow 10 (exponent + places).toNat * Nat.pow 10 (-exponent).toNat) := by
      rw [hleft, hright, hsum]
    _ = significand * Nat.pow 10 (exponent + places).toNat * Nat.pow 10 (-exponent).toNat :=
      (Nat.mul_assoc _ _ _).symm

theorem ofDecimal_shift (negative : Bool) (significand places : Nat) (exponent : Int) :
    Binary64.ofDecimal ⟨negative, significand * Nat.pow 10 places, exponent⟩ =
      Binary64.ofDecimal ⟨negative, significand, exponent + places⟩ :=
  Binary64.ofRatio_eq_of_same (Binary64.den_ofScaled_pos _ (by decide) _)
    (Binary64.den_ofScaled_pos _ (by decide) _) (same_ofScaled significand places exponent)

/-- The digits of a decimal with zeros in front, at least one more than there are places. -/
def padded (d : Decimal) (places : Nat) : Text :=
  List.leftpad (places + 1) '0' d.digits

theorem isDigit_padded (d : Decimal) (places : Nat) :
    ∀ c ∈ d.padded places, c.isDigit = true := by
  intro c hc
  rcases List.mem_append.mp hc with hzero | hdigit
  · rw [(List.mem_replicate.mp hzero).2]
    decide
  · exact Text.isDigit_ofNat d.significand c hdigit

theorem places_lt_length_padded (d : Decimal) (places : Nat) :
    places < (d.padded places).length := by
  rw [padded, List.leftpad, List.length_append, List.length_replicate]
  omega

theorem positional_of_neg {d : Decimal} (h : d.exponent < 0) : ∃ whole fraction : Text,
    d.positional = signed d.negative (whole ++ '.' :: fraction) ∧
      whole ++ fraction = d.padded (-d.exponent).toNat ∧ whole ≠ [] ∧
      fraction.length = (-d.exponent).toNat := by
  have hlength := d.places_lt_length_padded (-d.exponent).toNat
  refine ⟨(d.padded (-d.exponent).toNat).take
      ((d.padded (-d.exponent).toNat).length - (-d.exponent).toNat),
    (d.padded (-d.exponent).toNat).drop
      ((d.padded (-d.exponent).toNat).length - (-d.exponent).toNat), ?_, ?_, ?_, ?_⟩
  · rw [positional, if_neg (by omega)]
    rfl
  · exact List.take_append_drop _ _
  · apply List.ne_nil_of_length_pos
    rw [List.length_take]
    omega
  · rw [List.length_drop]
    omega

theorem positional_of_nonneg {d : Decimal} (h : 0 ≤ d.exponent) : d.positional =
    signed d.negative (Text.ofNat d.significand ++ List.replicate d.exponent.toNat '0') :=
  if_pos h

theorem isDigit_append_zeros (n places : Nat) :
    ∀ c ∈ Text.ofNat n ++ List.replicate places '0', c.isDigit = true := by
  intro c hc
  rcases List.mem_append.mp hc with hdigit | hzero
  · exact Text.isDigit_ofNat n c hdigit
  · rw [(List.mem_replicate.mp hzero).2]
    decide

theorem ofPositional_of_nonneg {d : Decimal} (h : 0 ≤ d.exponent) : ofPositional d.positional =
    ⟨d.negative, d.significand * Nat.pow 10 d.exponent.toNat, 0⟩ := by
  have hhead := head?_ne_minus (Text.ofNat_ne_nil d.significand) (Text.isDigit_ofNat d.significand)
    (List.replicate d.exponent.toNat '0')
  rw [positional_of_nonneg h, ofPositional_signed hhead,
    ofUnsigned_digits (isDigit_append_zeros _ _), valueOfDigits_append_zeros]

theorem ofPositional_of_neg {d : Decimal} (h : d.exponent < 0) :
    ofPositional d.positional = d := by
  obtain ⟨whole, fraction, htext, hpadded, hne, hlength⟩ := positional_of_neg h
  have hdigits := d.isDigit_padded (-d.exponent).toNat
  rw [← hpadded] at hdigits
  obtain ⟨hw, hf⟩ := List.forall_mem_append.mp hdigits
  have hplaces : -((-d.exponent).toNat : Int) = d.exponent := by omega
  rw [htext, ofPositional_signed (head?_ne_minus hne hw _), ofUnsigned_point hw hf, hpadded,
    hlength, hplaces, padded, digits, valueOfDigits_leftpad]

/-- The positional text of a decimal has the value of the decimal. -/
theorem ofDecimal_ofPositional (d : Decimal) :
    Binary64.ofDecimal (ofPositional d.positional) = Binary64.ofDecimal d := by
  by_cases h : 0 ≤ d.exponent
  · rw [ofPositional_of_nonneg h, ofDecimal_shift, Int.zero_add, Int.toNat_of_nonneg h]
  · rw [ofPositional_of_neg (Int.not_le.mp h)]

/-- An optional minus sign and digits, or these with a point and more digits behind. -/
def IsPositional (t : Text) : Prop :=
  ∃ negative whole, Lexeme.IsRun .digit whole ∧
    (t = signed negative whole ∨
      ∃ fraction, Lexeme.IsRun .digit fraction ∧ t = signed negative (whole ++ '.' :: fraction))

theorem IsPositional.isNumeral (h : IsPositional t) : Lexeme.IsNumeral t := by
  obtain ⟨negative, whole, hw, rfl | ⟨fraction, hf, rfl⟩⟩ := h
  · exact isNumeral_signed (Or.inl hw)
  · exact isNumeral_signed (Or.inr (Or.inl ⟨whole, fraction, hw, Or.inr hf, rfl⟩))

theorem isPositional_positional (d : Decimal) : IsPositional d.positional := by
  by_cases h : 0 ≤ d.exponent
  · rw [positional_of_nonneg h]
    exact ⟨d.negative, _, ⟨by simp [Text.ofNat_ne_nil], isDigit_append_zeros _ _⟩, Or.inl rfl⟩
  · obtain ⟨whole, fraction, htext, hpadded, hne, hlength⟩ := positional_of_neg (Int.not_le.mp h)
    have hdigits := d.isDigit_padded (-d.exponent).toNat
    rw [← hpadded] at hdigits
    obtain ⟨hw, hf⟩ := List.forall_mem_append.mp hdigits
    have hfraction : fraction ≠ [] := by
      apply List.ne_nil_of_length_pos
      omega
    exact ⟨d.negative, whole, ⟨hne, hw⟩, Or.inr ⟨fraction, ⟨hfraction, hf⟩, htext⟩⟩

theorem isNumeral_positional (d : Decimal) : Lexeme.IsNumeral d.positional :=
  (isPositional_positional d).isNumeral

end Decimal

end SExpr
