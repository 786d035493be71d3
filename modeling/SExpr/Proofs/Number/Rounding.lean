import Mathlib.Tactic.Ring
import SExpr.Number.Binary64

/-!
# Rounding to binary floating point

Rounding looks at the value of a ratio only, so a ratio may be multiplied out before it is rounded.
What the binary logarithm of a ratio is can be told by two products, without a quotient. Rounding
leaves every finite number as it is: the number is a whole multiple of the power of two among whose
multiples its magnitude is rounded.
-/
namespace SExpr.Ratio

/-! ## Ratios of the same value -/

variable {r r' : Ratio} {k : Nat}

def times (k : Nat) (r : Ratio) : Ratio :=
  ⟨k * r.num, k * r.den⟩

def Same (r r' : Ratio) : Prop :=
  r.num * r'.den = r'.num * r.den

theorem Same.times_eq (h : r.Same r') : r.times r'.den = r'.times r.den := by
  unfold times
  rw [Nat.mul_comm, h, Nat.mul_comm r'.num, Nat.mul_comm r.den r'.den]

theorem floor_times (hk : 0 < k) (r : Ratio) : (r.times k).floor = r.floor :=
  Nat.mul_div_mul_left r.num r.den hk

theorem scale_times (k : Nat) (r : Ratio) (base : Nat) (exponent : Int) :
    (r.times k).scale base exponent = (r.scale base exponent).times k := by
  simp [scale, times, Nat.mul_assoc]

theorem round_times (hk : 0 < k) (r : Ratio) : (r.times k).round = r.round := by
  have hrest : (r.times k).num % (r.times k).den = k * (r.num % r.den) :=
    Nat.mul_mod_mul_left k r.num r.den
  have hbelow : 2 * (k * (r.num % r.den)) < k * r.den ↔ 2 * (r.num % r.den) < r.den := by
    rw [Nat.mul_left_comm]
    exact Nat.mul_lt_mul_left hk
  have habove : k * r.den < 2 * (k * (r.num % r.den)) ↔ r.den < 2 * (r.num % r.den) := by
    rw [Nat.mul_left_comm]
    exact Nat.mul_lt_mul_left hk
  unfold round
  rw [hrest, floor_times hk]
  simp only [times, hbelow, habove]

theorem pred_div_times (hk : 0 < k) {a b : Nat} (ha : 0 < a) (hb : 0 < b) :
    (k * b - 1) / (k * a) = (b - 1) / a := by
  have hka : 0 < k * a := Nat.mul_pos hk ha
  apply Nat.le_antisymm
  · -- `b` is at most `a` times the next natural number
    apply Nat.le_of_lt_succ
    rw [Nat.div_lt_iff_lt_mul hka]
    have hlt : b - 1 < ((b - 1) / a + 1) * a := Nat.lt_mul_of_div_lt (Nat.lt_succ_self _) ha
    have hle : k * b ≤ k * (((b - 1) / a + 1) * a) := Nat.mul_le_mul_left k (by omega)
    rw [Nat.mul_left_comm] at hle
    have hpos : 0 < k * b := Nat.mul_pos hk hb
    rw [Nat.succ_eq_add_one]
    omega
  · rw [Nat.le_div_iff_mul_le hka, Nat.mul_left_comm]
    have hle : (b - 1) / a * a ≤ b - 1 := Nat.div_mul_le_self (b - 1) a
    have hmul : k * ((b - 1) / a * a) ≤ k * (b - 1) := Nat.mul_le_mul_left k hle
    have hpred : k * (b - 1) = k * b - k := by rw [Nat.mul_sub, Nat.mul_one]
    omega

theorem floorLog2_times (hk : 0 < k) (hnum : 0 < r.num) (hden : 0 < r.den) :
    (r.times k).floorLog2 = r.floorLog2 := by
  have hle : k * r.den ≤ k * r.num ↔ r.den ≤ r.num := Nat.mul_le_mul_left_iff hk
  unfold floorLog2
  rw [floor_times hk]
  simp only [times, hle, pred_div_times hk hnum hden]

theorem floorLog2_eq {n : Nat} (hden : 0 < r.den) (hle : r.den * Nat.pow 2 n ≤ r.num)
    (hlt : r.num < r.den * Nat.pow 2 (n + 1)) : r.floorLog2 = n := by
  have hpow : 0 < Nat.pow 2 n := Nat.pow_pos (by decide)
  have hone : r.den ≤ r.num := (Nat.le_mul_of_pos_right r.den hpow).trans hle
  have hfloor : r.floor ≠ 0 := Nat.ne_of_gt (Nat.div_pos hone hden)
  have hlog : r.floor.log2 = n := by
    rw [Nat.log2_eq_iff hfloor]
    constructor
    · apply (Nat.le_div_iff_mul_le hden).mpr
      rwa [Nat.mul_comm]
    · apply (Nat.div_lt_iff_lt_mul hden).mpr
      rwa [Nat.mul_comm]
  rw [floorLog2, if_pos hone, hlog]

theorem floorLog2_eq_neg {m : Nat} (hden : 0 < r.den) (hle : r.den ≤ r.num * Nat.pow 2 (m + 1))
    (hlt : r.num * Nat.pow 2 m < r.den) : r.floorLog2 = -(m + 1) := by
  have hpow : 0 < Nat.pow 2 m := Nat.pow_pos (by decide)
  have hone : ¬ r.den ≤ r.num := by
    have hmul : r.num ≤ r.num * Nat.pow 2 m := Nat.le_mul_of_pos_right r.num hpow
    omega
  have hnum : 0 < r.num := by
    apply Nat.pos_of_ne_zero
    intro hzero
    rw [hzero, Nat.zero_mul] at hle
    omega
  have hquotient : (r.den - 1) / r.num ≠ 0 := by
    apply Nat.ne_of_gt
    apply Nat.div_pos _ hnum
    omega
  have hlog : ((r.den - 1) / r.num).log2 = m := by
    rw [Nat.log2_eq_iff hquotient]
    constructor
    · apply (Nat.le_div_iff_mul_le hnum).mpr
      have hbelow : Nat.pow 2 m * r.num < r.den := by rwa [Nat.mul_comm]
      exact Nat.le_pred_of_lt hbelow
    · apply (Nat.div_lt_iff_lt_mul hnum).mpr
      have habove : r.den ≤ Nat.pow 2 (m + 1) * r.num := by rwa [Nat.mul_comm]
      exact (Nat.sub_lt hden Nat.one_pos).trans_le habove
  rw [floorLog2, if_neg hone, hlog]

end SExpr.Ratio

namespace SExpr.Binary64

variable {negative : Bool} {r r' : Ratio} {k : Nat}

/-! ## Values -/

theorem roundingExponent_times (hk : 0 < k) (hnum : 0 < r.num) (hden : 0 < r.den) :
    roundingExponent (r.times k) = roundingExponent r := by
  unfold roundingExponent
  rw [Ratio.floorLog2_times hk hnum hden]

theorem ofRatio_times (hk : 0 < k) (hden : 0 < r.den) :
    ofRatio negative (r.times k) = ofRatio negative r := by
  unfold ofRatio
  by_cases hzero : r.num = 0
  · have hzero' : (r.times k).num = 0 := by
      rw [Ratio.times, hzero, Nat.mul_zero]
    rw [if_pos hzero, if_pos hzero']
  · have hzero' : (r.times k).num ≠ 0 := Nat.mul_ne_zero (Nat.ne_of_gt hk) hzero
    rw [if_neg hzero, if_neg hzero', roundingExponent_times hk (Nat.pos_of_ne_zero hzero) hden]
    simp only [Ratio.scale_times, Ratio.round_times hk]

/-- Ratios of one value are rounded alike. -/
theorem ofRatio_eq_of_same (hden : 0 < r.den) (hden' : 0 < r'.den) (h : r.Same r') :
    ofRatio negative r = ofRatio negative r' := by
  rw [← ofRatio_times hden' hden, h.times_eq, ofRatio_times hden hden']

theorem den_ofScaled_pos (significand : Nat) {base : Nat} (hbase : 0 < base) (exponent : Int) :
    0 < (Ratio.ofScaled significand base exponent).den := by
  rw [Ratio.ofScaled, Ratio.scale, Nat.one_mul]
  exact Nat.pow_pos hbase

/-! ## Finite numbers -/

theorem ofScaled_eq (significand base : Nat) (exponent : Int) :
    Ratio.ofScaled significand base exponent =
      ⟨significand * Nat.pow base exponent.toNat, Nat.pow base (-exponent).toNat⟩ := by
  rw [Ratio.ofScaled, Ratio.scale, Nat.one_mul]

theorem scaled_bounds {n a b c : Nat} (hle : Nat.pow 2 a ≤ n) (hlt : n < Nat.pow 2 (a + 1))
    (h : c = a + b) : Nat.pow 2 c ≤ n * Nat.pow 2 b ∧ n * Nat.pow 2 b < Nat.pow 2 (c + 1) := by
  subst h
  have hpow : Nat.pow 2 (a + b) = Nat.pow 2 a * Nat.pow 2 b := Nat.pow_add 2 a b
  have hpow' : Nat.pow 2 (a + b + 1) = Nat.pow 2 (a + 1) * Nat.pow 2 b := by
    rw [Nat.add_right_comm]
    exact Nat.pow_add 2 (a + 1) b
  rw [hpow, hpow']
  exact ⟨Nat.mul_le_mul_right _ hle, Nat.mul_lt_mul_of_pos_right hlt (Nat.pow_pos (by decide))⟩

theorem floorLog2_ofScaled {significand : Nat} (hpos : significand ≠ 0) (exponent : Int) :
    (Ratio.ofScaled significand 2 exponent).floorLog2 = significand.log2 + exponent := by
  have hden := den_ofScaled_pos significand (by decide : 0 < 2) exponent
  have hle : Nat.pow 2 significand.log2 ≤ significand := Nat.log2_self_le hpos
  have hlt : significand < Nat.pow 2 (significand.log2 + 1) := Nat.lt_log2_self
  rw [ofScaled_eq] at hden ⊢
  by_cases hsum : 0 ≤ significand.log2 + exponent
  · obtain ⟨n, hn⟩ := Int.eq_ofNat_of_zero_le hsum
    obtain ⟨hbelow, habove⟩ := scaled_bounds hle hlt
      (b := exponent.toNat) (c := (-exponent).toNat + n) (by omega)
    rw [hn]
    apply Ratio.floorLog2_eq hden
    · exact (Nat.pow_add 2 _ n).symm.trans_le hbelow
    · exact habove.trans_eq (Nat.pow_add 2 _ (n + 1))
  · obtain ⟨m, hm⟩ := Int.eq_ofNat_of_zero_le (a := -(significand.log2 + exponent) - 1) (by omega)
    have hsum' : (significand.log2 : Int) + exponent = -((m : Int) + 1) := by omega
    have hzero : exponent.toNat = 0 := by omega
    have hnum : significand * Nat.pow 2 0 = significand := Nat.mul_one significand
    rw [hsum']
    apply Ratio.floorLog2_eq_neg hden
    · rw [hzero, hnum]
      exact (scaled_bounds hle hlt (by omega)).1
    · rw [hzero, hnum]
      have hplaces : (-exponent).toNat = significand.log2 + m + 1 := by omega
      rw [hplaces]
      exact (scaled_bounds hle hlt rfl).2

theorem Finite.log2_lt (x : Finite) : x.significand.log2 < 53 := by
  by_cases hzero : x.significand = 0
  · rw [hzero]
    decide
  · exact (Nat.log2_lt hzero).mpr x.canonical.1

/-- A finite number that is not zero is rounded among numbers with its own exponent. -/
theorem roundingExponent_magnitude (x : Finite) (hpos : x.significand ≠ 0) :
    roundingExponent x.magnitude = x.exponent := by
  have hlog := x.log2_lt
  obtain ⟨-, hmin, -, hnormal⟩ := x.canonical
  unfold roundingExponent
  rw [Finite.magnitude, floorLog2_ofScaled hpos]
  -- the significand fills 53 bits or the exponent is the least one, which cuts off the logarithm
  rcases hnormal with hfull | hleast
  · have hlog' : 52 ≤ x.significand.log2 := (Nat.le_log2 hpos).mpr hfull
    split <;> omega
  · split <;> omega

theorem round_mul_self (n : Nat) {d : Nat} (hd : 0 < d) : Ratio.round ⟨n * d, d⟩ = n := by
  have hrest : n * d % d = 0 := Nat.mul_mod_left n d
  simp [Ratio.round, Ratio.floor, hrest, hd]

theorem round_scale_magnitude (x : Finite) :
    (x.magnitude.scale 2 (-x.exponent)).round = x.significand := by
  have hden : 0 < Nat.pow 2 (-x.exponent).toNat * Nat.pow 2 x.exponent.toNat :=
    Nat.mul_pos (Nat.pow_pos (by decide)) (Nat.pow_pos (by decide))
  rw [Finite.magnitude, ofScaled_eq, Ratio.scale, Int.neg_neg, Nat.mul_assoc,
    Nat.mul_comm (Nat.pow 2 x.exponent.toNat)]
  exact round_mul_self x.significand hden

/-- Rounding leaves finite numbers as they are. -/
theorem ofRatio_magnitude (x : Finite) : ofRatio x.negative x.magnitude = finite x := by
  obtain ⟨negative, significand, exponent, canonical⟩ := x
  by_cases hzero : significand = 0
  · obtain rfl : exponent = -1074 := by
      obtain ⟨-, -, -, hfull | hleast⟩ := canonical
      · subst hzero
        exact absurd hfull (by decide)
      · exact hleast
    subst hzero
    rfl
  · have hnum : (Finite.magnitude ⟨negative, significand, exponent, canonical⟩).num ≠ 0 :=
      Nat.mul_ne_zero hzero (Nat.ne_of_gt (Nat.pow_pos (by decide)))
    have hexponent := roundingExponent_magnitude ⟨negative, significand, exponent, canonical⟩ hzero
    have hround := round_scale_magnitude ⟨negative, significand, exponent, canonical⟩
    have hsignificand : significand ≠ Nat.pow 2 53 := Nat.ne_of_lt canonical.1
    unfold ofRatio
    rw [if_neg hnum]
    simp only [hexponent, hround, if_neg hsignificand, ofFields, dif_pos canonical]

end SExpr.Binary64
