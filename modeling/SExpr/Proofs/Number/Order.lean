import SExpr.Proofs.Number.Nearest

/-!
# Order of floating-point numbers

Floating-point numbers are compared by the rationals that they denote, with the infinities at the
ends. The number nearest to a rational does not go down where the rational goes up, and rationals
that are equal are rounded alike if they have the same sign.
-/
namespace SExpr

namespace Binary64

/-- One number is not above another. NaN is not compared with anything. -/
def AtMost : Binary64 → Binary64 → Prop
  | finite x, finite y => x.value ≤ y.value
  | infinite negative, finite _ => negative = true
  | finite _, infinite negative => negative = false
  | infinite negative, infinite negative' => negative = true ∨ negative' = false
  | _, _ => False

variable {negative negative' : Bool} {q q' : ℚ} {x x' : Binary64} {d d' : Decimal}

theorem IsNearest.eq_finite_or_infinite (h : IsNearest negative q x) :
    (∃ y, x = finite y) ∨ x = infinite negative := by
  rcases lt_or_ge |q| overflowBound with hsmall | hlarge
  · obtain ⟨y, hy, -⟩ := h.nearest hsmall
    exact Or.inl ⟨y, hy⟩
  · exact Or.inr (h.overflow hlarge)

theorem IsNearest.atMost_self (h : IsNearest negative q x) : x.AtMost x := by
  rcases h.eq_finite_or_infinite with ⟨y, rfl⟩ | rfl
  · exact le_refl y.value
  · cases negative
    · exact Or.inr rfl
    · exact Or.inl rfl

theorem IsNearest.atMost_of_infinite (h : IsNearest negative q x) : (infinite true).AtMost x := by
  rcases h.eq_finite_or_infinite with ⟨y, rfl⟩ | rfl
  · rfl
  · exact Or.inl rfl

theorem IsNearest.atMost_infinite (h : IsNearest negative q x) : x.AtMost (infinite false) := by
  rcases h.eq_finite_or_infinite with ⟨y, rfl⟩ | rfl
  · rfl
  · exact Or.inr rfl

/-- If a number is not farther from a point than a smaller number, the point is not below their
middle. -/
theorem add_le_of_abs_sub_le {a b p : ℚ} (hlt : b < a) (h : |a - p| ≤ |b - p|) :
    a + b ≤ 2 * p := by
  by_contra hless
  rcases abs_cases (a - p) with ⟨ha, ha'⟩ | ⟨ha, ha'⟩ <;>
    rcases abs_cases (b - p) with ⟨hb, hb'⟩ | ⟨hb, hb'⟩ <;> linarith

theorem le_add_of_abs_sub_le {a b p : ℚ} (hlt : b < a) (h : |b - p| ≤ |a - p|) :
    2 * p ≤ a + b := by
  by_contra hless
  rcases abs_cases (a - p) with ⟨ha, ha'⟩ | ⟨ha, ha'⟩ <;>
    rcases abs_cases (b - p) with ⟨hb, hb'⟩ | ⟨hb, hb'⟩ <;> linarith

theorem IsNearest.atMost_of_lt (h : IsNearest negative q x) (h' : IsNearest negative' q' x')
    (hsign : q = signFactor negative * |q|) (hsign' : q' = signFactor negative' * |q'|)
    (hlt : q < q') : x.AtMost x' := by
  rcases lt_or_ge |q| overflowBound with hsmall | hlarge
  · rcases lt_or_ge |q'| overflowBound with hsmall' | hlarge'
    · obtain ⟨y, rfl, -, hnear⟩ := h.nearest hsmall
      obtain ⟨y', rfl, -, hnear'⟩ := h'.nearest hsmall'
      -- both rationals would be on the wrong side of the middle
      show y.value ≤ y'.value
      by_contra hgreater
      have hgreater := not_le.mp hgreater
      have hbelow := add_le_of_abs_sub_le hgreater (hnear y').1
      have habove := le_add_of_abs_sub_le hgreater (hnear' y).1
      linarith
    · rw [h'.overflow hlarge']
      cases negative' with
      | false => exact h.atMost_infinite
      | true =>
        have hneg : q' = -|q'| := by simpa [signFactor] using hsign'
        have hq := neg_abs_le q
        linarith
  · rw [h.overflow hlarge]
    cases negative with
    | true => exact h'.atMost_of_infinite
    | false =>
      have hpos : q = |q| := by simpa [signFactor] using hsign
      have hlarge' : overflowBound ≤ |q'| := by
        have hq' := le_abs_self q'
        linarith
      rw [h'.overflow hlarge']
      cases negative' with
      | false => exact Or.inr rfl
      | true =>
        have hneg : q' = -|q'| := by simpa [signFactor] using hsign'
        have hnonneg := abs_nonneg q'
        have hnonneg' := abs_nonneg q
        linarith

theorem eq_zero_of_signs (hne : negative ≠ negative') (hsign : q = signFactor negative * |q|)
    (hsign' : q = signFactor negative' * |q|) : |q| = 0 := by
  obtain rfl : negative' = !negative := Bool.eq_not.mpr hne.symm
  rw [signFactor_not, neg_mul, ← hsign] at hsign'
  rw [abs_eq_zero]
  linarith

/-! ## Decimals -/

theorem isNearest_ofDecimal (d : Decimal) : IsNearest d.negative d.value (ofDecimal d) := by
  have hvalue := Ratio.value_ofScaled d.significand (by decide : 0 < 10) d.exponent
  have hnearest := isNearest_ofRatio d.negative
    (den_ofScaled_pos d.significand (by decide : 0 < 10) d.exponent)
  rwa [hvalue] at hnearest

theorem ofDecimal_eq_of_value (hsign : d.negative = d'.negative) (h : d.value = d'.value) :
    ofDecimal d = ofDecimal d' := by
  have hden := den_ofScaled_pos d.significand (by decide : 0 < 10) d.exponent
  have hden' := den_ofScaled_pos d'.significand (by decide : 0 < 10) d'.exponent
  rw [Decimal.value, Decimal.value, hsign] at h
  have hratio := mul_left_cancel₀ (signFactor_ne_zero d'.negative) h
  have hcast := Ratio.value_ofScaled d.significand (by decide : 0 < 10) d.exponent
  have hcast' := Ratio.value_ofScaled d'.significand (by decide : 0 < 10) d'.exponent
  rw [Nat.cast_ofNat] at hcast hcast'
  rw [ofDecimal, ofDecimal, hsign]
  refine ofRatio_eq_of_same hden hden' (Ratio.same_of_value hden hden' ?_)
  rw [hcast, hcast', hratio]

end Binary64

end SExpr
