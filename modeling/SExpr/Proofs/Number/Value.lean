import Mathlib.Algebra.Order.Field.Rat
import Mathlib.Algebra.Order.Ring.Abs
import Mathlib.Tactic.FieldSimp
import SExpr.Proofs.Number.Positional

/-!
# Exact values

Decimals and finite binary numbers denote rational numbers. The positional, the scientific and the
debug text of a decimal are read as a decimal of the same value, and a finite number is whole just
if its value is an integer.
-/
namespace SExpr

def Ratio.value (r : Ratio) : ℚ :=
  r.num / r.den

def signFactor (negative : Bool) : ℚ :=
  if negative then -1 else 1

/-- The rational number that a decimal denotes. -/
def Decimal.value (d : Decimal) : ℚ :=
  signFactor d.negative * (d.significand * (10 : ℚ) ^ d.exponent)

/-- The rational number that a finite number denotes. -/
def Binary64.Finite.value (x : Binary64.Finite) : ℚ :=
  signFactor x.negative * (x.significand * (2 : ℚ) ^ x.exponent)

variable {whole fraction : Text} {negative : Bool}

theorem signFactor_mul_self (negative : Bool) : signFactor negative * signFactor negative = 1 := by
  cases negative <;> simp [signFactor]

theorem signFactor_ne_zero (negative : Bool) : signFactor negative ≠ 0 := by
  cases negative <;> simp [signFactor]

theorem signFactor_not (negative : Bool) : signFactor (!negative) = -signFactor negative := by
  cases negative <;> simp [signFactor]

/-! ## Ratios -/

namespace Ratio

theorem zpow_eq_div {base : Nat} (hbase : 0 < base) (exponent : Int) :
    (base : ℚ) ^ exponent = (Nat.pow base exponent.toNat : ℚ) / Nat.pow base (-exponent).toNat := by
  have hne : (base : ℚ) ≠ 0 := Nat.cast_ne_zero.mpr (Nat.ne_of_gt hbase)
  have hsplit : exponent = (exponent.toNat : Int) - ((-exponent).toNat : Int) := by omega
  calc (base : ℚ) ^ exponent = (base : ℚ) ^ ((exponent.toNat : Int) - ((-exponent).toNat : Int)) :=
        congrArg _ hsplit
    _ = (base : ℚ) ^ exponent.toNat / (base : ℚ) ^ (-exponent).toNat := by
        rw [zpow_sub₀ hne, zpow_natCast, zpow_natCast]
    _ = (Nat.pow base exponent.toNat : ℚ) / Nat.pow base (-exponent).toNat := by
        rw [Nat.pow_eq, Nat.pow_eq, Nat.cast_pow, Nat.cast_pow]

theorem same_of_value {r r' : Ratio} (hden : 0 < r.den) (hden' : 0 < r'.den)
    (h : r.value = r'.value) : r.Same r' := by
  rw [value, value, div_eq_div_iff (Nat.cast_ne_zero.mpr (Nat.ne_of_gt hden))
    (Nat.cast_ne_zero.mpr (Nat.ne_of_gt hden'))] at h
  exact_mod_cast h

theorem value_ofScaled (significand : Nat) {base : Nat} (hbase : 0 < base) (exponent : Int) :
    (ofScaled significand base exponent).value = significand * (base : ℚ) ^ exponent := by
  rw [Binary64.ofScaled_eq, value, zpow_eq_div hbase, Nat.cast_mul, mul_div_assoc]

theorem floor_of_value {r : Ratio} {n : Nat} (hden : 0 < r.den) (h : r.value = n) :
    r.isWhole = true ∧ r.floor = n := by
  have hne : (r.den : ℚ) ≠ 0 := Nat.cast_ne_zero.mpr (Nat.ne_of_gt hden)
  have hnum : r.num = n * r.den := by
    rw [value, div_eq_iff hne] at h
    exact_mod_cast h
  refine ⟨decide_eq_true ?_, ?_⟩
  · rw [hnum, Nat.mul_mod_left]
  · rw [floor, hnum, Nat.mul_div_cancel n hden]

theorem value_of_isWhole {r : Ratio} (hden : 0 < r.den) (h : r.isWhole = true) :
    r.value = r.floor := by
  have hne : (r.den : ℚ) ≠ 0 := Nat.cast_ne_zero.mpr (Nat.ne_of_gt hden)
  have hnum : r.floor * r.den = r.num :=
    Nat.div_mul_cancel (Nat.dvd_of_mod_eq_zero (of_decide_eq_true h))
  rw [value, div_eq_iff hne, ← Nat.cast_mul, hnum]

end Ratio

/-! ## Finite numbers -/

namespace Binary64.Finite

variable {x : Finite} {z : Int}

theorem den_magnitude_pos (x : Finite) : 0 < x.magnitude.den :=
  den_ofScaled_pos x.significand (by decide) x.exponent

theorem value_eq_magnitude (x : Finite) :
    x.value = signFactor x.negative * x.magnitude.value := by
  rw [value, magnitude, Ratio.value_ofScaled _ (by decide)]
  rfl

theorem abs_signFactor (negative : Bool) : |signFactor negative| = 1 := by
  cases negative <;> simp [signFactor]

theorem abs_value (x : Finite) : |x.value| = x.magnitude.value := by
  have hnonneg : 0 ≤ x.magnitude.value := div_nonneg (Nat.cast_nonneg _) (Nat.cast_nonneg _)
  rw [value_eq_magnitude, abs_mul, abs_signFactor, one_mul, abs_of_nonneg hnonneg]

theorem value_magnitude_of_value (h : x.value = z) : x.magnitude.value = z.natAbs := by
  rw [← abs_value, h, Nat.cast_natAbs, Int.cast_abs]

theorem isWhole_iff : x.magnitude.isWhole = true ↔ ∃ z : Int, x.value = z := by
  constructor
  · intro h
    refine ⟨(if x.negative then -1 else 1) * x.magnitude.floor, ?_⟩
    rw [value_eq_magnitude, Ratio.value_of_isWhole x.den_magnitude_pos h, signFactor]
    split <;> simp
  · rintro ⟨z, h⟩
    exact (Ratio.floor_of_value x.den_magnitude_pos (value_magnitude_of_value h)).1

theorem floor_magnitude_of_value (h : x.value = z) : x.magnitude.floor = z.natAbs :=
  (Ratio.floor_of_value x.den_magnitude_pos (value_magnitude_of_value h)).2

theorem eq_of_value (h : x.value = z) :
    z = if x.negative then -(z.natAbs : Int) else z.natAbs := by
  have hvalue := value_eq_magnitude x
  rw [h, value_magnitude_of_value h, signFactor] at hvalue
  apply Int.cast_injective (α := ℚ)
  rw [hvalue]
  split_ifs <;> simp

end Binary64.Finite

/-! ## Texts of decimals -/

namespace Decimal

variable {d : Decimal}

theorem value_shift (negative : Bool) (significand places : Nat) (exponent : Int) :
    value ⟨negative, significand * Nat.pow 10 places, exponent⟩ =
      value ⟨negative, significand, exponent + places⟩ := by
  have hten : (10 : ℚ) ≠ 0 := by norm_num
  have hpow : (Nat.pow 10 places : ℚ) = (10 : ℚ) ^ places := by
    rw [Nat.pow_eq, Nat.cast_pow]
    rfl
  simp only [value]
  rw [Nat.cast_mul, hpow, zpow_add₀ hten, zpow_natCast, mul_assoc,
    mul_comm ((10 : ℚ) ^ places)]

/-- The positional text of a decimal is read as a decimal of its value. -/
theorem value_ofPositional (d : Decimal) : (ofPositional d.positional).value = d.value := by
  by_cases h : 0 ≤ d.exponent
  · rw [ofPositional_of_nonneg h, value_shift, Int.zero_add, Int.toNat_of_nonneg h]
  · rw [ofPositional_of_neg (Int.not_le.mp h)]

theorem ofScientific_append {t exponent : Text} (ht : ∀ c ∈ t, c ≠ 'e') :
    ofScientific (t ++ 'e' :: exponent) =
      { ofPositional t with exponent := (ofPositional t).exponent + exponentOf exponent } := by
  have ht' : ∀ c ∈ t, decide (c ≠ 'e') = true := fun c hc => decide_eq_true (ht c hc)
  have htake : (t ++ 'e' :: exponent).takeWhile (· ≠ 'e') = t := by
    rw [List.takeWhile_append_of_pos ht', List.takeWhile_cons_of_neg (by decide), List.append_nil]
  have hdrop : (t ++ 'e' :: exponent).dropWhile (· ≠ 'e') = 'e' :: exponent := by
    rw [List.dropWhile_append_of_pos ht', List.dropWhile_cons_of_neg (by decide)]
  rw [ofScientific, htake, hdrop]
  rfl

theorem ofScientific_of_forall {t : Text} (ht : ∀ c ∈ t, c ≠ 'e') :
    ofScientific t = ofPositional t := by
  have ht' : ∀ c ∈ t, decide (c ≠ 'e') = true := fun c hc => decide_eq_true (ht c hc)
  have htake : t.takeWhile (· ≠ 'e') = t := List.takeWhile_eq_self_iff.mpr ht'
  have hdrop : t.dropWhile (· ≠ 'e') = [] := List.dropWhile_eq_nil_iff.mpr ht'
  have hnone : exponentOf [] = 0 := rfl
  rw [ofScientific, htake, hdrop, List.drop_nil, hnone]
  simp only [Int.add_zero]

theorem signed_append (negative : Bool) (t more : Text) :
    signed negative (t ++ more) = signed negative t ++ more := by
  cases negative <;> rfl

theorem ne_of_mem_signed {t : Text} (ht : ∀ c ∈ t, c.isDigit = true ∨ c = '.') :
    ∀ c ∈ signed negative t, c ≠ 'e' := by
  have hdigits : ∀ c ∈ t, c ≠ 'e' := by
    rintro c hc rfl
    rcases ht 'e' hc with h | h
    · exact absurd h (by decide)
    · exact absurd h (by decide)
  cases negative with
  | false => exact hdigits
  | true => exact List.forall_mem_cons.mpr ⟨by decide, hdigits⟩

theorem ne_of_mem_positional (d : Decimal) : ∀ c ∈ d.positional, c ≠ 'e' := by
  by_cases h : 0 ≤ d.exponent
  · rw [positional_of_nonneg h]
    exact ne_of_mem_signed fun c hc => Or.inl (isDigit_append_zeros _ _ c hc)
  · obtain ⟨whole, fraction, htext, hpadded, -, -⟩ := positional_of_neg (Int.not_le.mp h)
    have hdigits := d.isDigit_padded (-d.exponent).toNat
    rw [← hpadded] at hdigits
    obtain ⟨hw, hf⟩ := List.forall_mem_append.mp hdigits
    rw [htext]
    apply ne_of_mem_signed
    exact List.forall_mem_append.mpr ⟨fun c hc => Or.inl (hw c hc),
      List.forall_mem_cons.mpr ⟨Or.inr rfl, fun c hc => Or.inl (hf c hc)⟩⟩

theorem ofPositional_mantissa (negative : Bool) {digits : Text} (hne : digits ≠ [])
    (hdigits : ∀ c ∈ digits, c.isDigit = true) :
    ofPositional (signed negative
      (digits.take 1 ++ if digits.length = 1 then [] else '.' :: digits.tail)) =
        ⟨negative, valueOfDigits digits, 1 - digits.length⟩ := by
  obtain ⟨first, rest, rfl⟩ := List.exists_cons_of_ne_nil hne
  obtain ⟨hfirst, hrest⟩ := List.forall_mem_cons.mp hdigits
  have hone : ∀ c ∈ [first], c.isDigit = true := List.forall_mem_singleton.mpr hfirst
  have htake : (first :: rest).take 1 = [first] := rfl
  rw [htake, ofPositional_signed (head?_ne_minus (List.cons_ne_nil first []) hone _)]
  by_cases hlength : (first :: rest).length = 1
  · obtain rfl : rest = [] := List.eq_nil_of_length_eq_zero (Nat.succ.inj hlength)
    rw [if_pos hlength, List.append_nil, ofUnsigned_digits hone]
    rfl
  · rw [if_neg hlength, List.tail_cons, ofUnsigned_point hone hrest, List.length_cons]
    simp only [List.singleton_append, mk.injEq, true_and]
    omega

theorem exponentOf_signed (e : Int) :
    exponentOf ((if e < 0 then '-' else '+') :: List.leftpad 2 '0' (Text.ofNat e.natAbs)) = e := by
  by_cases h : e < 0
  · rw [if_pos h, exponentOf, valueOfDigits_leftpad]
    omega
  · rw [if_neg h, exponentOf, valueOfDigits_leftpad]
    omega

theorem ofScientific_scientific (d : Decimal) : ofScientific d.scientific = d := by
  have hdigits := Text.isDigit_ofNat d.significand
  have hmantissa : ∀ c ∈ d.digits.take 1 ++ (if d.digits.length = 1 then [] else
      '.' :: d.digits.tail), c.isDigit = true ∨ c = '.' := by
    refine List.forall_mem_append.mpr ⟨fun c hc => Or.inl (hdigits c (List.mem_of_mem_take hc)), ?_⟩
    split
    · simp
    · exact List.forall_mem_cons.mpr
        ⟨Or.inr rfl, fun c hc => Or.inl (hdigits c (List.mem_of_mem_tail hc))⟩
  have hread := ofPositional_mantissa d.negative (Text.ofNat_ne_nil d.significand) hdigits
  rw [valueOfDigits_ofNat] at hread
  have hexponent : 1 - (d.digits.length : Int) + d.leadingExponent = d.exponent := by
    rw [leadingExponent]
    omega
  unfold scientific
  dsimp only
  rw [signed_append, ofScientific_append (ne_of_mem_signed hmantissa), exponentOf_signed]
  unfold digits at hexponent ⊢
  rw [hread, hexponent]

/-- The debug text of a decimal is read as the decimal, perhaps with zeros behind it. -/
theorem exists_ofScientific_debug (d : Decimal) : ∃ places : Nat, ofScientific d.debug =
    ⟨d.negative, d.significand * Nat.pow 10 places, d.exponent - places⟩ := by
  have hread (h : ofScientific d.debug = d) : ∃ places : Nat, ofScientific d.debug =
      ⟨d.negative, d.significand * Nat.pow 10 places, d.exponent - places⟩ :=
    ⟨0, by simp [h]⟩
  unfold debug at hread ⊢
  split_ifs with hrange hwhole
  · -- a whole number has a zero behind a point
    have hdigits := isDigit_append_zeros d.significand d.exponent.toNat
    have hzeros : (Text.ofNat d.significand ++ List.replicate d.exponent.toNat '0') ++ ['0'] =
        Text.ofNat d.significand ++ List.replicate (d.exponent.toNat + 1) '0' := by
      rw [List.append_assoc, List.replicate_succ']
    have hne : ∀ c ∈ d.positional ++ ['.', '0'], c ≠ 'e' :=
      List.forall_mem_append.mpr ⟨ne_of_mem_positional d, by simp⟩
    have hexponent : d.exponent - ((d.exponent.toNat + 1 : Nat) : Int) = -1 := by omega
    refine ⟨d.exponent.toNat + 1, ?_⟩
    rw [ofScientific_of_forall hne, positional_of_nonneg hwhole, ← signed_append,
      ofPositional_signed (head?_ne_minus (by simp [Text.ofNat_ne_nil]) hdigits _),
      ofUnsigned_point hdigits (List.forall_mem_singleton.mpr rfl), hzeros,
      valueOfDigits_append_zeros, hexponent]
    rfl
  · rw [if_pos hrange, if_neg hwhole] at hread
    refine hread ?_
    rw [ofScientific_of_forall (ne_of_mem_positional d), ofPositional_of_neg (Int.not_le.mp hwhole)]
  · rw [if_neg hrange] at hread
    exact hread (ofScientific_scientific d)

theorem value_ofScientific_debug (d : Decimal) : (ofScientific d.debug).value = d.value := by
  obtain ⟨places, hread⟩ := d.exists_ofScientific_debug
  rw [hread, value_shift, Int.sub_add_cancel]

theorem ofDecimal_ofScientific_debug (d : Decimal) :
    Binary64.ofDecimal (ofScientific d.debug) = Binary64.ofDecimal d := by
  obtain ⟨places, hread⟩ := d.exists_ofScientific_debug
  rw [hread, ofDecimal_shift, Int.sub_add_cancel]

end Decimal

end SExpr
