import SExpr.Proofs.Number.Value
import SExpr.Proofs.Number.Written

/-!
# Written numbers are exact

A whole number is written as the integer that it is. Any other finite number has a shortest decimal
with a fraction, and is written as its debug text shows it, with an exponent written out.
-/
namespace SExpr.Binary64

variable {negative : Bool} {x : Finite} {z : Int}

/-! ## Rounding natural numbers -/

theorem ofFields_eq_finite {significand : Nat} {exponent : Int}
    (h : ofFields negative significand exponent = finite x) :
    x.significand = significand ∧ x.exponent = exponent := by
  unfold ofFields at h
  split at h
  · cases h
    exact ⟨rfl, rfl⟩
  · cases h

/-- What a ratio is rounded to, in units of the power of two among whose multiples it is rounded. -/
theorem value_magnitude_of_ofRatio {r : Ratio} (hnum : r.num ≠ 0)
    (h : ofRatio negative r = finite x) : x.magnitude.value =
      (r.scale 2 (-roundingExponent r)).round * (2 : ℚ) ^ roundingExponent r := by
  rw [Finite.magnitude, Ratio.value_ofScaled _ (by decide)]
  unfold ofRatio at h
  rw [if_neg hnum] at h
  dsimp only at h
  split_ifs at h with hfull
  · -- a significand of 54 bits is halved, and its exponent is raised
    obtain ⟨hsignificand, hexponent⟩ := ofFields_eq_finite h
    have htwo : (2 : ℚ) ≠ 0 := by norm_num
    rw [hsignificand, hexponent, hfull, Nat.cast_ofNat, zpow_add_one₀ htwo]
    push_cast [Nat.pow_eq]
    ring
  · obtain ⟨hsignificand, hexponent⟩ := ofFields_eq_finite h
    rw [hsignificand, hexponent]
    rfl

theorem round_scale_natCast (n j : Nat) :
    (Ratio.scale ⟨n, 1⟩ 2 (j : Int)).round = n * Nat.pow 2 j := by
  have hself := round_mul_self (n * Nat.pow 2 j) Nat.one_pos
  have hzero : (-(j : Int)).toNat = 0 := by omega
  rw [Nat.mul_one] at hself
  rw [Ratio.scale, Int.toNat_natCast, hzero]
  exact hself

theorem isWhole_of_ofRatio {n : Nat} (h : ofRatio negative ⟨n, 1⟩ = finite x) :
    x.magnitude.isWhole = true := by
  by_cases hzero : n = 0
  · subst hzero
    cases h
    rfl
  · have hvalue := value_magnitude_of_ofRatio hzero h
    have hwhole : ∃ m : Nat, x.magnitude.value = m := by
      by_cases hexponent : 0 ≤ roundingExponent ⟨n, 1⟩
      · obtain ⟨j, hj⟩ := Int.eq_ofNat_of_zero_le hexponent
        refine ⟨(Ratio.scale ⟨n, 1⟩ 2 (-roundingExponent ⟨n, 1⟩)).round * Nat.pow 2 j, ?_⟩
        rw [hvalue, hj, zpow_natCast, Nat.cast_mul, Nat.pow_eq, Nat.cast_pow]
        rfl
      · obtain ⟨j, hj⟩ := Int.eq_ofNat_of_zero_le (a := -roundingExponent ⟨n, 1⟩) (by omega)
        have hunit : roundingExponent ⟨n, 1⟩ = -(j : Int) := by omega
        refine ⟨n, ?_⟩
        rw [hvalue, hj, round_scale_natCast, hunit, zpow_neg, zpow_natCast]
        push_cast [Nat.pow_eq]
        field_simp
    obtain ⟨m, hm⟩ := hwhole
    exact (Ratio.floor_of_value x.den_magnitude_pos hm).1

theorem isWhole_of_ofDecimal {d : Decimal} (hexponent : 0 ≤ d.exponent)
    (h : ofDecimal d = finite x) : x.magnitude.isWhole = true := by
  have hshift := Decimal.ofDecimal_shift d.negative d.significand d.exponent.toNat 0
  rw [Int.zero_add, Int.toNat_of_nonneg hexponent] at hshift
  have hratio : Ratio.ofScaled (d.significand * Nat.pow 10 d.exponent.toNat) 10 0 =
      ⟨d.significand * Nat.pow 10 d.exponent.toNat, 1⟩ := by
    rw [ofScaled_eq]
    exact congrArg (Ratio.mk · 1) (Nat.mul_one _)
  rw [← hshift, ofDecimal, hratio] at h
  exact isWhole_of_ofRatio h

/-! ## The texts of a number -/

/-- The shortest decimal of a number that is not whole has a fraction. -/
theorem Finite.exponent_shortest_neg (h : ¬ x.magnitude.isWhole = true) :
    x.shortest.exponent < 0 := by
  apply Int.not_le.mp
  intro hexponent
  exact h (isWhole_of_ofDecimal hexponent x.ofDecimal_shortest)

theorem isPositional_written (x : Finite) : Decimal.IsPositional (finite x).written := by
  rw [written_finite]
  split <;> exact Decimal.isPositional_positional _

theorem written_of_value (h : x.value = z) : (finite x).written =
    if z = 0 then Decimal.signed x.negative ['0'] else Text.ofInt z := by
  have hwhole : x.magnitude.isWhole = true := Finite.isWhole_iff.mpr ⟨z, h⟩
  have hwritten : (finite x).written = Decimal.signed x.negative (Text.ofNat z.natAbs) := by
    rw [written_finite, if_pos hwhole, x.positional_wholePart,
      Finite.floor_magnitude_of_value h]
  have hsign := Finite.eq_of_value h
  rw [hwritten]
  by_cases hzero : z = 0
  · rw [if_pos hzero, hzero]
    rfl
  · rw [if_neg hzero]
    cases hnegative : x.negative with
    | false =>
      rw [hnegative, if_neg (by decide)] at hsign
      rw [hsign]
      rfl
    | true =>
      rw [hnegative, if_pos rfl] at hsign
      obtain ⟨n, rfl⟩ : ∃ n : Nat, z = Int.negSucc n := Int.eq_negSucc_of_lt_zero (by omega)
      rfl

theorem written_of_not_whole (h : ¬ x.magnitude.isWhole = true) : (finite x).written =
    if 'e' ∈ (finite x).debug then (Decimal.ofScientific (finite x).debug).positional
    else (finite x).debug := by
  have hexponent : ¬ 0 ≤ x.shortest.exponent := Int.not_le.mpr (Finite.exponent_shortest_neg h)
  have hdebug : (finite x).debug = x.shortest.debug := rfl
  rw [written_finite, if_neg h, hdebug, Decimal.debug, if_neg hexponent]
  by_cases hrange : -4 ≤ x.shortest.leadingExponent ∧ x.shortest.leadingExponent < 16
  · have hnone : 'e' ∉ x.shortest.positional := fun hmem =>
      Decimal.ne_of_mem_positional _ 'e' hmem rfl
    rw [if_pos hrange, if_neg hnone]
  · have hmem : 'e' ∈ x.shortest.scientific := by
      rw [Decimal.scientific, Decimal.signed_append]
      exact List.mem_append_right _ List.mem_cons_self
    rw [if_neg hrange, if_pos hmem, Decimal.ofScientific_scientific]

theorem value_written_of_not_whole (h : ¬ x.magnitude.isWhole = true) :
    (Decimal.ofPositional (finite x).written).value =
      (Decimal.ofScientific (finite x).debug).value := by
  have hdebug : (finite x).debug = x.shortest.debug := rfl
  rw [written_finite, if_neg h, hdebug, Decimal.value_ofPositional,
    Decimal.value_ofScientific_debug]

end SExpr.Binary64
