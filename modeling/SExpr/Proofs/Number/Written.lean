import SExpr.Proofs.Number.Positional

/-!
# Written numbers

A finite number is written by its whole part, by its shortest decimal or by its exact value, and
each of these is rounded to the number again.
-/
namespace SExpr

theorem Decimal.ofDecimal_trimmed (d : Decimal) :
    Binary64.ofDecimal d.trimmed = Binary64.ofDecimal d := by
  fun_induction trimmed d with
  | case1 d h ih =>
    obtain ⟨negative, significand, exponent⟩ := d
    have hsplit : significand / 10 * Nat.pow 10 1 = significand :=
      Nat.div_mul_cancel (Nat.dvd_of_mod_eq_zero h.2)
    have hshift := ofDecimal_shift negative (significand / 10) 1 exponent
    rw [hsplit] at hshift
    rw [ih, hshift]
    rfl
  | case2 d h => rfl

namespace Binary64.Finite

variable {x : Finite}

theorem ofDecimal_of_same {significand : Nat} {exponent : Int}
    (h : (Ratio.ofScaled significand 10 exponent).Same x.magnitude) :
    ofDecimal ⟨x.negative, significand, exponent⟩ = finite x := by
  rw [← ofRatio_magnitude x]
  exact ofRatio_eq_of_same (den_ofScaled_pos _ (by decide) _)
    (den_ofScaled_pos _ (by decide) _) h

theorem ofDecimal_wholePart (h : x.magnitude.isWhole = true) :
    ofDecimal x.wholePart = finite x := by
  apply ofDecimal_of_same
  have hrest : x.magnitude.num % x.magnitude.den = 0 := of_decide_eq_true h
  have hnum : x.magnitude.floor * x.magnitude.den = x.magnitude.num :=
    Nat.div_mul_cancel (Nat.dvd_of_mod_eq_zero hrest)
  rw [ofScaled_eq, Ratio.Same]
  exact (congrArg (· * x.magnitude.den) (Nat.mul_one _)).trans
    (hnum.trans (Nat.mul_one _).symm)

theorem ofDecimal_toDecimal (x : Finite) : ofDecimal x.toDecimal = finite x := by
  apply ofDecimal_of_same
  by_cases h : 0 ≤ x.exponent
  · have hzero : (-x.exponent).toNat = 0 := by omega
    rw [if_pos h, magnitude, ofScaled_eq, ofScaled_eq, hzero, Ratio.Same]
    simp
  · have hzero : x.exponent.toNat = 0 := by omega
    have hpow : Nat.pow 10 (-x.exponent).toNat =
        Nat.pow 5 (-x.exponent).toNat * Nat.pow 2 (-x.exponent).toNat :=
      Nat.mul_pow 5 2 (-x.exponent).toNat
    rw [if_neg h, magnitude, ofScaled_eq, ofScaled_eq, hzero, Ratio.Same, hpow]
    simp [Nat.mul_assoc]

theorem readsBack_nearestMultiple? {exponent : Int} {d : Decimal}
    (h : x.nearestMultiple? exponent = some d) : x.ReadsBack d := by
  have hfound := List.find?_some h
  exact of_decide_eq_true hfound

/-- The shortest decimal is rounded to the number. -/
theorem ofDecimal_shortest (x : Finite) : ofDecimal x.shortest = finite x := by
  unfold shortest
  by_cases hzero : x.significand = 0
  · rw [if_pos hzero]
    apply ofDecimal_of_same
    rw [magnitude, hzero, ofScaled_eq, ofScaled_eq, Ratio.Same]
    simp
  · rw [if_neg hzero]
    simp only
    split
    · rename_i d hd
      obtain ⟨n, -, hn⟩ := List.exists_of_findSome?_eq_some hd
      rw [Decimal.ofDecimal_trimmed]
      exact readsBack_nearestMultiple? hn
    · exact x.ofDecimal_toDecimal

end Binary64.Finite

namespace Binary64

theorem Finite.positional_wholePart (x : Finite) :
    x.wholePart.positional = Decimal.signed x.negative (Text.ofNat x.magnitude.floor) := by
  rw [Decimal.positional_of_nonneg (d := x.wholePart) (Int.le_refl 0)]
  exact congrArg _ (List.append_nil _)

theorem written_finite (x : Finite) : (finite x).written =
    if x.magnitude.isWhole then x.wholePart.positional else x.shortest.positional := rfl

/-- The source text of a finite number is read back as the number. -/
theorem ofDecimal_written (x : Finite) :
    ofDecimal (.ofPositional (finite x).written) = finite x := by
  rw [written_finite]
  by_cases h : x.magnitude.isWhole = true
  · rw [if_pos h, Decimal.ofDecimal_ofPositional, Finite.ofDecimal_wholePart h]
  · rw [if_neg h, Decimal.ofDecimal_ofPositional, Finite.ofDecimal_shortest]

theorem isNumeral_written (x : Finite) : Lexeme.IsNumeral (finite x).written := by
  rw [written_finite]
  split <;> exact Decimal.isNumeral_positional _

end Binary64

end SExpr
