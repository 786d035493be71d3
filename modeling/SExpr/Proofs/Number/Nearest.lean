import Mathlib.Algebra.Order.Archimedean.Basic
import Mathlib.Data.Rat.Floor
import Mathlib.Tactic.Linarith
import Mathlib.Tactic.NormNum
import SExpr.Proofs.Number.Value

/-!
# Nearest numbers

A ratio is rounded to a number than which no finite number is nearer, and of two equally near ones
to the one with the even significand. The first ratio that is too large is halfway between the
greatest finite number and the next power of two.
-/
namespace SExpr

/-- The least magnitude that is rounded to an infinity. -/
def overflowBound : ℚ :=
  2 ^ 1024 - 2 ^ 970

/-- The floating-point number for a rational with a sign: an infinity from `overflowBound` on, and
below it the nearest finite number of that sign. A finite number of another value is as near only if
the significand is even. -/
structure Binary64.IsNearest (negative : Bool) (q : ℚ) (x : Binary64) : Prop where
  overflow : overflowBound ≤ |q| → x = infinite negative
  nearest : |q| < overflowBound → ∃ y : Finite, x = finite y ∧ y.negative = negative ∧
    ∀ z : Finite, |y.value - q| ≤ |z.value - q| ∧
      (|z.value - q| = |y.value - q| → z.value ≠ y.value → y.significand % 2 = 0)
  underflow : |q| ≤ 2 ^ (-1075 : Int) → x = finite (.zero negative)

variable {negative : Bool} {r : Ratio} {k : Int}

/-! ## Rounding to natural numbers -/

namespace Ratio

theorem value_pos (hnum : r.num ≠ 0) (hden : 0 < r.den) : 0 < r.value :=
  div_pos (Nat.cast_pos.mpr (Nat.pos_of_ne_zero hnum)) (Nat.cast_pos.mpr hden)

theorem value_scale (r : Ratio) {base : Nat} (hbase : 0 < base) (exponent : Int) :
    (r.scale base exponent).value = r.value * (base : ℚ) ^ exponent := by
  rw [scale, value, value, zpow_eq_div hbase, Nat.cast_mul, Nat.cast_mul, div_mul_div_comm]

theorem den_scale_pos (hden : 0 < r.den) {base : Nat} (hbase : 0 < base) (exponent : Int) :
    0 < (r.scale base exponent).den :=
  Nat.mul_pos hden (Nat.pow_pos hbase)

theorem round_spec (hden : 0 < r.den) : |(r.round : ℚ) - r.value| ≤ 1 / 2 ∧
    (|(r.round : ℚ) - r.value| = 1 / 2 → r.round % 2 = 0) := by
  have hpos : (0 : ℚ) < r.den := Nat.cast_pos.mpr hden
  have hvalue : r.value = r.floor + (r.num % r.den : Nat) / r.den := by
    have hnum : (r.num : ℚ) = r.den * r.floor + (r.num % r.den : Nat) := by
      exact_mod_cast (Nat.div_add_mod r.num r.den).symm
    rw [value, hnum, add_div, mul_div_cancel_left₀ _ (ne_of_gt hpos)]
  have hrest : ((r.num % r.den : Nat) : ℚ) / r.den < 1 := by
    rw [div_lt_one hpos]
    exact_mod_cast Nat.mod_lt r.num hden
  have hnonneg : (0 : ℚ) ≤ (r.num % r.den : Nat) / r.den := by positivity
  unfold round
  dsimp only
  rw [hvalue]
  split_ifs with hbelow habove
  · have hhalf : ((r.num % r.den : Nat) : ℚ) / r.den < 1 / 2 := by
      rw [div_lt_iff₀ hpos]
      have hcast : (2 : ℚ) * (r.num % r.den : Nat) < r.den := by exact_mod_cast hbelow
      linarith
    rw [sub_add_cancel_left, abs_neg, abs_of_nonneg hnonneg]
    exact ⟨hhalf.le, fun h => absurd h (ne_of_lt hhalf)⟩
  · have hhalf : 1 / 2 < ((r.num % r.den : Nat) : ℚ) / r.den := by
      rw [lt_div_iff₀ hpos]
      have hcast : (r.den : ℚ) < 2 * (r.num % r.den : Nat) := by exact_mod_cast habove
      linarith
    rw [Nat.cast_add_one, add_sub_add_left_eq_sub, abs_of_pos (sub_pos.mpr hrest)]
    exact ⟨by linarith, fun h => by linarith⟩
  · -- exactly a half: the even neighbour is taken
    have hhalf : ((r.num % r.den : Nat) : ℚ) / r.den = 1 / 2 := by
      rw [div_eq_iff (ne_of_gt hpos)]
      have hcast : (2 : ℚ) * (r.num % r.den : Nat) = r.den := by
        exact_mod_cast (by omega : 2 * (r.num % r.den) = r.den)
      linarith
    rw [hhalf]
    rcases Nat.mod_two_eq_zero_or_one r.floor with heven | hodd
    · rw [heven]
      norm_num [heven]
    · rw [hodd]
      push_cast
      norm_num [Nat.add_mod, hodd]

/-- No integer is nearer to a ratio than what it is rounded to, and one is as near only if that is
even. -/
theorem round_nearest (hden : 0 < r.den) (i : Int) :
    |(r.round : ℚ) - r.value| ≤ |i - r.value| ∧
      (|i - r.value| = |(r.round : ℚ) - r.value| → i ≠ r.round → r.round % 2 = 0) := by
  obtain ⟨hhalf, heven⟩ := round_spec hden
  by_cases heq : i = r.round
  · rw [heq]
    exact ⟨le_refl _, fun _ hne => absurd rfl hne⟩
  · -- another integer is at least one away
    have hone : (1 : ℚ) ≤ |i - (r.round : ℚ)| := by
      exact_mod_cast Int.one_le_abs (sub_ne_zero.mpr heq)
    have htriangle := abs_sub_le (i : ℚ) r.value r.round
    rw [abs_sub_comm r.value] at htriangle
    exact ⟨by linarith, fun htie _ => heven (by linarith)⟩

theorem floorLog2_bounds (hnum : r.num ≠ 0) (hden : 0 < r.den) :
    (2 : ℚ) ^ r.floorLog2 ≤ r.value ∧ r.value < (2 : ℚ) ^ (r.floorLog2 + 1) := by
  obtain ⟨k, hle, hlt⟩ := exists_mem_Ico_zpow (value_pos hnum hden) (one_lt_two (α := ℚ))
  have hpos : (0 : ℚ) < r.den := Nat.cast_pos.mpr hden
  have hlog : r.floorLog2 = k := by
    rw [value] at hle hlt
    cases k with
    | ofNat n =>
      rw [Int.ofNat_eq_natCast, zpow_natCast, le_div_iff₀ hpos] at hle
      rw [Int.ofNat_eq_natCast, ← Nat.cast_succ, zpow_natCast, div_lt_iff₀ hpos] at hlt
      apply floorLog2_eq hden
      · rw [mul_comm] at hle
        exact_mod_cast hle
      · rw [mul_comm] at hlt
        exact_mod_cast hlt
    | negSucc n =>
      have hneg : Int.negSucc n = -((n + 1 : Nat) : Int) := rfl
      have hsucc : -((n + 1 : Nat) : Int) + 1 = -(n : Int) := by omega
      rw [hneg, zpow_neg, zpow_natCast, le_div_iff₀ hpos, inv_mul_le_iff₀ (by positivity)] at hle
      rw [hneg, hsucc, zpow_neg, zpow_natCast, div_lt_iff₀ hpos, ← div_eq_inv_mul,
        lt_div_iff₀ (by positivity)] at hlt
      apply floorLog2_eq_neg hden
      · rw [mul_comm] at hle
        exact_mod_cast hle
      · exact_mod_cast hlt
  rw [hlog]
  exact ⟨hle, hlt⟩

end Ratio

namespace Binary64

/-! ## Multiples of a unit -/

/-- How many units a ratio is rounded to, where the unit is the power of two among whose multiples
it is rounded. -/
def units (r : Ratio) : Nat :=
  (r.scale 2 (-roundingExponent r)).round

theorem le_roundingExponent (r : Ratio) : -1074 ≤ roundingExponent r := by
  unfold roundingExponent
  split <;> omega

theorem value_lt_units (hnum : r.num ≠ 0) (hden : 0 < r.den) :
    r.value < (2 : ℚ) ^ (roundingExponent r + 53) := by
  have hlog : r.floorLog2 + 1 ≤ roundingExponent r + 53 := by
    unfold roundingExponent
    split <;> omega
  exact (Ratio.floorLog2_bounds hnum hden).2.trans_le (zpow_le_zpow_right₀ one_le_two hlog)

theorem units_le_value (hnum : r.num ≠ 0) (hden : 0 < r.den) (h : -1074 < roundingExponent r) :
    (2 : ℚ) ^ (roundingExponent r + 52) ≤ r.value := by
  have hlog : roundingExponent r + 52 = r.floorLog2 := by
    unfold roundingExponent at h ⊢
    split <;> split at h <;> omega
  rw [hlog]
  exact (Ratio.floorLog2_bounds hnum hden).1

theorem two_pow_mul_zpow (n : Nat) (e : Int) :
    ((2 ^ n : Int) : ℚ) * (2 : ℚ) ^ e = (2 : ℚ) ^ (e + n) := by
  rw [zpow_add₀ two_ne_zero, zpow_natCast, mul_comm, Int.cast_pow, Int.cast_ofNat]

theorem abs_mul_zpow_sub (a v : ℚ) (e : Int) :
    |a * (2 : ℚ) ^ e - v| = |a - v * (2 : ℚ) ^ (-e)| * (2 : ℚ) ^ e := by
  have hunit : (0 : ℚ) < 2 ^ e := zpow_pos two_pos e
  have hfactor : a * (2 : ℚ) ^ e - v = (a - v * (2 : ℚ) ^ (-e)) * (2 : ℚ) ^ e := by
    rw [zpow_neg]
    field_simp
  rw [hfactor, abs_mul, abs_of_pos hunit]

/-- Among the multiples of its unit, a ratio is rounded to the nearest one. -/
theorem units_nearest_multiple (hden : 0 < r.den) (i : Int) :
    |units r * (2 : ℚ) ^ roundingExponent r - r.value| ≤
        |i * (2 : ℚ) ^ roundingExponent r - r.value| ∧
      (|i * (2 : ℚ) ^ roundingExponent r - r.value| =
          |units r * (2 : ℚ) ^ roundingExponent r - r.value| → i ≠ units r → units r % 2 = 0) := by
  have hunit : (0 : ℚ) < 2 ^ roundingExponent r := zpow_pos two_pos _
  have hscaled := Ratio.round_nearest
    (Ratio.den_scale_pos hden (by decide : 0 < 2) (-roundingExponent r)) i
  rw [Ratio.value_scale r (by decide : 0 < 2), Nat.cast_ofNat] at hscaled
  obtain ⟨hnear, htie⟩ := hscaled
  rw [abs_mul_zpow_sub, abs_mul_zpow_sub]
  exact ⟨mul_le_mul_of_nonneg_right hnear hunit.le,
    fun h hne => htie (mul_right_cancel₀ (ne_of_gt hunit) h) hne⟩

theorem mul_zpow_lt {i e : Int} (hi : |i| < 2 ^ 53) (hk : k < e) :
    i * (2 : ℚ) ^ k < (2 : ℚ) ^ (e + 52) := by
  have hi' : (i : ℚ) < (2 : ℚ) ^ (53 : Int) := by
    exact_mod_cast (le_abs_self i).trans_lt hi
  calc i * (2 : ℚ) ^ k < (2 : ℚ) ^ (53 : Int) * (2 : ℚ) ^ k :=
        mul_lt_mul_of_pos_right hi' (zpow_pos two_pos k)
    _ = (2 : ℚ) ^ (53 + k) := (zpow_add₀ two_ne_zero _ _).symm
    _ ≤ (2 : ℚ) ^ (e + 52) := zpow_le_zpow_right₀ one_le_two (by omega)

/-- No number with a significand below `2 ^ 53` is nearer than the multiple of the unit that a ratio
is rounded to. -/
theorem units_nearest (hnum : r.num ≠ 0) (hden : 0 < r.den) {i : Int} (hi : |i| < 2 ^ 53)
    (hk : -1074 ≤ k) :
    |units r * (2 : ℚ) ^ roundingExponent r - r.value| ≤ |i * (2 : ℚ) ^ k - r.value| ∧
      (|i * (2 : ℚ) ^ k - r.value| = |units r * (2 : ℚ) ^ roundingExponent r - r.value| →
        i * (2 : ℚ) ^ k ≠ units r * (2 : ℚ) ^ roundingExponent r → units r % 2 = 0) := by
  by_cases hmultiple : roundingExponent r ≤ k
  · obtain ⟨j, hj⟩ := Int.eq_ofNat_of_zero_le (Int.sub_nonneg_of_le hmultiple)
    have hvalue : i * (2 : ℚ) ^ k = ((i * 2 ^ j : Int) : ℚ) * (2 : ℚ) ^ roundingExponent r := by
      have hsum : k = j + roundingExponent r := by omega
      rw [hsum, zpow_add₀ two_ne_zero, zpow_natCast]
      push_cast
      ring
    obtain ⟨hnear, htie⟩ := units_nearest_multiple hden (i * 2 ^ j)
    rw [hvalue]
    refine ⟨hnear, fun h hne => htie h fun heq => hne ?_⟩
    rw [heq]
    rfl
  · -- a number on a finer grid is below `2 ^ 52` units, and these are not above the ratio
    have hfull := units_le_value hnum hden (by omega)
    have hbelow := mul_zpow_lt hi (Int.not_le.mp hmultiple)
    have hunits := (units_nearest_multiple hden (2 ^ 52)).1
    rw [two_pow_mul_zpow, Nat.cast_ofNat, abs_of_nonpos (sub_nonpos.mpr hfull)] at hunits
    have hfar : |units r * (2 : ℚ) ^ roundingExponent r - r.value| <
        |i * (2 : ℚ) ^ k - r.value| := by
      rw [abs_of_neg (by linarith : (i : ℚ) * (2 : ℚ) ^ k - r.value < 0)]
      linarith
    exact ⟨hfar.le, fun h => absurd h (ne_of_gt hfar)⟩

theorem units_spec (hden : 0 < r.den) :
    |units r * (2 : ℚ) ^ roundingExponent r - r.value| ≤ 1 / 2 * (2 : ℚ) ^ roundingExponent r ∧
      (|units r * (2 : ℚ) ^ roundingExponent r - r.value| =
        1 / 2 * (2 : ℚ) ^ roundingExponent r → units r % 2 = 0) := by
  have hunit : (0 : ℚ) < 2 ^ roundingExponent r := zpow_pos two_pos _
  have hscaled := Ratio.round_spec
    (Ratio.den_scale_pos hden (by decide : 0 < 2) (-roundingExponent r))
  rw [Ratio.value_scale r (by decide : 0 < 2), Nat.cast_ofNat] at hscaled
  obtain ⟨hhalf, heven⟩ := hscaled
  rw [abs_mul_zpow_sub]
  exact ⟨mul_le_mul_of_nonneg_right hhalf hunit.le,
    fun h => heven (mul_right_cancel₀ (ne_of_gt hunit) h)⟩

theorem units_le (hnum : r.num ≠ 0) (hden : 0 < r.den) : units r ≤ 2 ^ 53 := by
  have hunit : (0 : ℚ) < 2 ^ roundingExponent r := zpow_pos two_pos _
  have hlt : r.value < (2 ^ 53 : Int) * (2 : ℚ) ^ roundingExponent r := by
    rw [two_pow_mul_zpow]
    exact value_lt_units hnum hden
  have hnear := (units_nearest_multiple hden (2 ^ 53)).1
  rw [abs_of_pos (sub_pos.mpr hlt)] at hnear
  have hle := (le_abs_self _).trans hnear
  have hunits : (units r : ℚ) ≤ (2 ^ 53 : Int) :=
    le_of_mul_le_mul_right (by linarith) hunit
  exact_mod_cast hunits

theorem le_units (hnum : r.num ≠ 0) (hden : 0 < r.den) (h : -1074 < roundingExponent r) :
    2 ^ 52 ≤ units r := by
  have hunit : (0 : ℚ) < 2 ^ roundingExponent r := zpow_pos two_pos _
  have hle : (2 ^ 52 : Int) * (2 : ℚ) ^ roundingExponent r ≤ r.value := by
    rw [two_pow_mul_zpow]
    exact units_le_value hnum hden h
  have hnear := (units_nearest_multiple hden (2 ^ 52)).1
  rw [abs_of_nonpos (sub_nonpos.mpr hle)] at hnear
  have hge := (neg_le_abs _).trans hnear
  have hunits : ((2 ^ 52 : Int) : ℚ) ≤ units r :=
    le_of_mul_le_mul_right (by linarith) hunit
  exact_mod_cast hunits

/-! ## Fields -/

theorem exists_fields (negative : Bool) (hnum : r.num ≠ 0) (hden : 0 < r.den) : ∃ m k,
    ofRatio negative r = ofFields negative m k ∧
      m * (2 : ℚ) ^ k = units r * (2 : ℚ) ^ roundingExponent r ∧
      (units r % 2 = 0 → m % 2 = 0) ∧ (k ≤ 971 → Canonical m k) ∧
      (units r = 2 ^ 53 ∧ k = roundingExponent r + 1 ∨
        units r < 2 ^ 53 ∧ m = units r ∧ k = roundingExponent r) := by
  have hleast := le_roundingExponent r
  by_cases hfull : units r = Nat.pow 2 53
  · refine ⟨Nat.pow 2 52, roundingExponent r + 1, ?_, ?_, fun _ => rfl, fun hk => ?_,
      Or.inl ⟨hfull, rfl⟩⟩
    · rw [ofRatio, if_neg hnum]
      exact if_pos hfull
    · rw [hfull, zpow_add_one₀ two_ne_zero]
      push_cast [Nat.pow_eq]
      ring
    · exact ⟨by decide, by omega, hk, Or.inl (Nat.le_refl _)⟩
  · have hlt : units r < 2 ^ 53 := Nat.lt_of_le_of_ne (units_le hnum hden) hfull
    refine ⟨units r, roundingExponent r, ?_, rfl, id, fun hk => ?_, Or.inr ⟨hlt, rfl, rfl⟩⟩
    · rw [ofRatio, if_neg hnum]
      exact if_neg hfull
    · refine ⟨hlt, hleast, hk, ?_⟩
      by_cases hunit : roundingExponent r = -1074
      · exact Or.inr hunit
      · exact Or.inl (le_units hnum hden (by omega))

theorem overflowBound_eq : overflowBound = (2 ^ 53 - 1 / 2) * (2 : ℚ) ^ (971 : Int) := by
  have hunit : (2 : ℚ) ^ (971 : Int) = 2 ^ 971 := zpow_natCast 2 971
  have hpower : (2 : ℚ) ^ 1024 = 2 ^ 53 * 2 ^ 971 := pow_add 2 53 971
  have hhalf : (2 : ℚ) ^ 971 = 2 ^ 970 * 2 := pow_succ 2 970
  rw [overflowBound, hunit, hpower, sub_mul, hhalf]
  generalize (2 : ℚ) ^ 970 = half
  ring

/-- With the greatest exponent, only ratios below the bound are rounded to less than `2 ^ 53`
units. -/
theorem units_eq_of_overflow (hnum : r.num ≠ 0) (hden : 0 < r.den)
    (hlast : roundingExponent r = 971) (h : overflowBound ≤ r.value) : units r = 2 ^ 53 := by
  obtain ⟨hhalf, heven⟩ := units_spec hden
  have hunit : (0 : ℚ) < 2 ^ (971 : Int) := zpow_pos two_pos _
  rw [hlast] at hhalf heven
  rw [overflowBound_eq] at h
  by_contra hne
  have hunits : units r + 1 ≤ 2 ^ 53 :=
    Nat.succ_le_of_lt (Nat.lt_of_le_of_ne (units_le hnum hden) hne)
  have hcast : (units r : ℚ) + 1 ≤ 2 ^ 53 := by exact_mod_cast hunits
  have hscaled := mul_le_mul_of_nonneg_right hcast hunit.le
  have hfar := neg_le_abs (units r * (2 : ℚ) ^ (971 : Int) - r.value)
  generalize (2 : ℚ) ^ (971 : Int) = unit at *
  -- the ratio is then the bound, halfway between an odd number of units and the next one
  have htie := heven (by linarith)
  have hodd : (units r : ℚ) + 1 = 2 ^ 53 :=
    le_antisymm hcast (le_of_mul_le_mul_right (by linarith) hunit)
  have hodd : units r + 1 = 2 ^ 53 := by exact_mod_cast hodd
  omega

theorem overflow_iff (hnum : r.num ≠ 0) (hden : 0 < r.den) : overflowBound ≤ r.value ↔
    971 < roundingExponent r ∨ roundingExponent r = 971 ∧ units r = 2 ^ 53 := by
  have hunit : (0 : ℚ) < 2 ^ (971 : Int) := zpow_pos two_pos _
  have hbound := overflowBound_eq
  constructor
  · intro h
    have hexponent : 971 ≤ roundingExponent r := by
      by_contra hless
      have hlt := value_lt_units hnum hden
      have hle : (2 : ℚ) ^ (roundingExponent r + 53) ≤ (2 : ℚ) ^ (52 + 971 : Int) :=
        zpow_le_zpow_right₀ one_le_two (by omega)
      rw [zpow_add₀ two_ne_zero 52 971, zpow_ofNat 2 52] at hle
      generalize (2 : ℚ) ^ (971 : Int) = unit at *
      linarith
    rcases Int.lt_or_eq_of_le hexponent with hlarge | hlast
    · exact Or.inl hlarge
    · exact Or.inr ⟨hlast.symm, units_eq_of_overflow hnum hden hlast.symm h⟩
  · rintro (hlarge | ⟨hlast, hfull⟩)
    · have hle := units_le_value hnum hden (by omega)
      have hge : (2 : ℚ) ^ (53 + 971 : Int) ≤ (2 : ℚ) ^ (roundingExponent r + 52) :=
        zpow_le_zpow_right₀ one_le_two (by omega)
      rw [zpow_add₀ two_ne_zero 53 971, zpow_ofNat 2 53] at hge
      generalize (2 : ℚ) ^ (971 : Int) = unit at *
      linarith
    · have hhalf := (units_spec hden).1
      rw [hlast, hfull, Nat.cast_pow, Nat.cast_ofNat] at hhalf
      have hnear := (le_abs_self _).trans hhalf
      generalize (2 : ℚ) ^ (971 : Int) = unit at *
      linarith

theorem units_eq_zero (hnum : r.num ≠ 0) (hden : 0 < r.den)
    (h : r.value ≤ (2 : ℚ) ^ (-1075 : Int)) :
    units r = 0 ∧ roundingExponent r = -1074 := by
  have hunit : (0 : ℚ) < 2 ^ (-1075 : Int) := zpow_pos two_pos _
  have hexponent : roundingExponent r = -1074 := by
    by_contra hne
    have hleast := le_roundingExponent r
    have hle := units_le_value hnum hden (by omega)
    have hlt : (2 : ℚ) ^ (-1075 : Int) < (2 : ℚ) ^ (roundingExponent r + 52) :=
      zpow_lt_zpow_right₀ one_lt_two (by omega)
    linarith
  obtain ⟨hhalf, heven⟩ := units_spec hden
  have hdouble : (2 : ℚ) ^ (-1074 : Int) = (2 : ℚ) ^ (-1075 : Int) * 2 :=
    zpow_add_one₀ two_ne_zero (-1075)
  have hpos := Ratio.value_pos hnum hden
  rw [hexponent, hdouble] at hhalf heven
  refine ⟨?_, hexponent⟩
  by_contra hne
  generalize (2 : ℚ) ^ (-1075 : Int) = half at *
  have hone : (1 : ℚ) ≤ units r := by exact_mod_cast Nat.pos_of_ne_zero hne
  have hscaled := mul_le_mul_of_nonneg_right hone (by linarith : 0 ≤ half * 2)
  have hnear := (le_abs_self _).trans hhalf
  -- one unit is as near as none only if the number of units is even
  have hle : units r ≤ 1 := by
    have hlt : (units r : ℚ) < 2 := by
      apply lt_of_mul_lt_mul_right _ (by linarith : 0 ≤ half * 2)
      linarith
    have hlt : units r < 2 := by exact_mod_cast hlt
    omega
  have hlast : units r = 1 := by omega
  rw [hlast, Nat.cast_one, one_mul] at hhalf heven
  have htie : |half * 2 - r.value| = 1 / 2 * (half * 2) := by
    apply le_antisymm hhalf
    have hfar := le_abs_self (half * 2 - r.value)
    linarith
  have heven := heven htie
  omega

/-! ## Numbers -/

theorem Finite.exists_value_eq (negative : Bool) (z : Finite) : ∃ i : Int, |i| < 2 ^ 53 ∧
    signFactor negative * z.value = i * (2 : ℚ) ^ z.exponent := by
  have hlt : (z.significand : Int) < 2 ^ 53 := by exact_mod_cast z.canonical.1
  have hnonneg : (0 : Int) ≤ z.significand := Int.natCast_nonneg _
  cases hsame : (negative == z.negative) with
  | true =>
    refine ⟨z.significand, (abs_of_nonneg hnonneg).trans_lt hlt, ?_⟩
    rw [value, eq_of_beq hsame, ← mul_assoc, signFactor_mul_self, one_mul]
    rfl
  | false =>
    refine ⟨-z.significand, ((abs_neg _).trans (abs_of_nonneg hnonneg)).trans_lt hlt, ?_⟩
    have hother : negative = !z.negative := Bool.eq_not.mpr (beq_eq_false_iff_ne.mp hsame)
    rw [value, hother, ← mul_assoc, signFactor_not, neg_mul, signFactor_mul_self]
    push_cast
    ring

theorem Finite.value_zero (negative : Bool) : (Finite.zero negative).value = 0 := by
  rw [value, zero, Nat.cast_zero, zero_mul, mul_zero]

theorem abs_signFactor_mul_sub (negative : Bool) (a b : ℚ) :
    |a - signFactor negative * b| = |signFactor negative * a - b| := by
  have hfactor : a - signFactor negative * b =
      signFactor negative * (signFactor negative * a - b) := by
    rw [mul_sub, ← mul_assoc, signFactor_mul_self, one_mul]
  rw [hfactor, abs_mul, Finite.abs_signFactor, one_mul]

theorem isNearest_zero (hnum : r.num = 0) :
    IsNearest negative (signFactor negative * r.value) (finite (.zero negative)) := by
  have hvalue : signFactor negative * r.value = 0 := by
    rw [Ratio.value, hnum, Nat.cast_zero, zero_div, mul_zero]
  have hbound : 0 < overflowBound := by
    rw [overflowBound]
    exact sub_pos.mpr (pow_lt_pow_right₀ one_lt_two (by decide))
  rw [hvalue]
  refine ⟨fun h => ?_, fun _ => ⟨_, rfl, rfl, fun z => ⟨?_, fun _ _ => rfl⟩⟩, fun _ => rfl⟩
  · rw [abs_zero] at h
    exact absurd hbound (not_lt.mpr h)
  · rw [Finite.value_zero, sub_zero, abs_zero]
    exact abs_nonneg _

/-- Rounding gives the nearest number. -/
theorem isNearest_ofRatio (negative : Bool) (hden : 0 < r.den) :
    IsNearest negative (signFactor negative * r.value) (ofRatio negative r) := by
  by_cases hnum : r.num = 0
  · rw [ofRatio, if_pos hnum]
    exact isNearest_zero hnum
  obtain ⟨m, k, hfields, hvalue, heven, hcanonical, hk⟩ := exists_fields negative hnum hden
  have hoverflow := overflow_iff hnum hden
  have habs : |signFactor negative * r.value| = r.value := by
    rw [abs_mul, Finite.abs_signFactor, one_mul, abs_of_pos (Ratio.value_pos hnum hden)]
  refine ⟨fun h => ?_, fun h => ?_, fun h => ?_⟩
  · have hlarge := hoverflow.mp (habs ▸ h)
    have hnot : ¬ Canonical m k := by
      rintro ⟨-, -, hlast, -⟩
      omega
    rw [hfields, ofFields, dif_neg hnot]
  · have hsmall : ¬ (971 < roundingExponent r ∨ roundingExponent r = 971 ∧ units r = 2 ^ 53) :=
      mt hoverflow.mpr (not_le.mpr (habs ▸ h))
    have hfinite : Canonical m k := hcanonical (by omega)
    refine ⟨⟨negative, m, k, hfinite⟩, ?_, rfl, fun z => ?_⟩
    · rw [hfields, ofFields, dif_pos hfinite]
    · obtain ⟨i, hi, hz⟩ := z.exists_value_eq negative
      obtain ⟨hnear, htie⟩ := units_nearest hnum hden hi z.canonical.2.1
      have hself : signFactor negative * Finite.value ⟨negative, m, k, hfinite⟩ =
          units r * (2 : ℚ) ^ roundingExponent r := by
        rw [Finite.value, ← mul_assoc, signFactor_mul_self, one_mul, hvalue]
      rw [abs_signFactor_mul_sub, abs_signFactor_mul_sub, hself, hz]
      refine ⟨hnear, fun h hne => heven (htie h fun heq => hne ?_)⟩
      rw [← hz, ← hself] at heq
      exact mul_left_cancel₀ (signFactor_ne_zero negative) heq
  · obtain ⟨hnone, hleast⟩ := units_eq_zero hnum hden (habs ▸ h)
    rcases hk with ⟨hfull, -⟩ | ⟨-, rfl, rfl⟩
    · omega
    · rw [hfields, hnone, hleast]
      rfl

end Binary64

end SExpr
