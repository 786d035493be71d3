import SExpr.Proofs.Number.Value

/-!
# What numerals denote

A numeral denotes the rational number that its digits, its point and its sign say, each digit
counting by its place. Every numeral denotes exactly one rational, and it is read as a decimal of
that value and sign.
-/
namespace SExpr

namespace Lexeme

def digitValue (c : Char) : Nat :=
  c.toNat - '0'.toNat

/-- The value of digits in front of a point. -/
def wholeValue (digits : Text) : ℚ :=
  digits.foldl (fun v c => 10 * v + digitValue c) 0

/-- The value of digits behind a point. -/
def fractionValue : Text → ℚ
  | [] => 0
  | c :: digits => (digitValue c + fractionValue digits) / 10

/-- A numeral denotes a rational, and has a minus sign or none. Digits may be missing on either side
of a point, but not on both. -/
inductive Denotes : Text → Bool → ℚ → Prop
  | whole (negative : Bool) (whole : Text) : IsRun .digit whole →
      Denotes (Decimal.signed negative whole) negative (signFactor negative * wholeValue whole)
  | point (negative : Bool) (whole fraction : Text) : IsRun .digit (whole ++ fraction) →
      Denotes (Decimal.signed negative (whole ++ '.' :: fraction)) negative
        (signFactor negative * (wholeValue whole + fractionValue fraction))

variable {t whole fraction digits : Text} {negative : Bool} {q : ℚ}

theorem isRun_append_iff : IsRun .digit (whole ++ fraction) ↔
    (whole ≠ [] ∨ fraction ≠ []) ∧ (∀ c ∈ whole, c.isDigit = true) ∧
      ∀ c ∈ fraction, c.isDigit = true := by
  rw [IsRun, List.forall_mem_append, Ne, List.append_eq_nil_iff, not_and_or]
  rfl

/-- The numerals are the texts that denote something. -/
theorem isNumeral_iff_denotes : IsNumeral t ↔ ∃ negative q, Denotes t negative q := by
  have hsigned : ∀ u, IsUnsigned u → ∀ negative,
      ∃ q, Denotes (Decimal.signed negative u) negative q := by
    rintro u (hu | ⟨whole, fraction, hw, hf, rfl⟩ | ⟨fraction, hf, rfl⟩) negative
    · exact ⟨_, .whole negative u hu⟩
    · refine ⟨_, .point negative whole fraction (isRun_append_iff.mpr ⟨Or.inl hw.1, hw.2, ?_⟩)⟩
      rcases hf with rfl | hf
      · simp
      · exact hf.2
    · exact ⟨_, .point negative [] fraction hf⟩
  constructor
  · rintro (hu | ⟨u, hu, rfl⟩)
    · exact ⟨false, hsigned t hu false⟩
    · exact ⟨true, hsigned u hu true⟩
  · rintro ⟨negative, q, h⟩
    cases h with
    | whole _ whole hw => exact Decimal.isNumeral_signed (Or.inl hw)
    | point _ whole fraction hdigits =>
      obtain ⟨hne, hw, hf⟩ := isRun_append_iff.mp hdigits
      apply Decimal.isNumeral_signed
      by_cases hwhole : whole = []
      · subst hwhole
        exact Or.inr (Or.inr ⟨fraction, hdigits, rfl⟩)
      · refine Or.inr (Or.inl ⟨whole, fraction, ⟨hwhole, hw⟩, ?_, rfl⟩)
        by_cases hfraction : fraction = []
        · exact Or.inl hfraction
        · exact Or.inr ⟨hfraction, hf⟩

/-! ## Values of digits -/

theorem ofDigitChars_eq (digits : Text) (n : Nat) : (Nat.ofDigitChars 10 digits n : ℚ) =
    (n + fractionValue digits) * 10 ^ digits.length := by
  induction digits generalizing n with
  | nil => simp [fractionValue]
  | cons c digits ih =>
    rw [Nat.ofDigitChars_cons, ih, fractionValue, List.length_cons, pow_succ]
    push_cast [digitValue]
    ring

theorem wholeValue_eq (digits : Text) : wholeValue digits = Decimal.valueOfDigits digits := by
  have hfold : ∀ n : Nat, digits.foldl (fun v c => 10 * v + (digitValue c : ℚ)) n =
      Nat.ofDigitChars 10 digits n := by
    induction digits with
    | nil => exact fun n => rfl
    | cons c digits ih =>
      intro n
      rw [List.foldl_cons, Nat.ofDigitChars_cons, ← ih]
      push_cast [digitValue]
      rfl
  exact (congrArg (digits.foldl _) Nat.cast_zero.symm).trans (hfold 0)

theorem value_digits (negative : Bool) (whole fraction : Text) :
    Decimal.value ⟨negative, Decimal.valueOfDigits (whole ++ fraction), -fraction.length⟩ =
      signFactor negative * (wholeValue whole + fractionValue fraction) := by
  have hdigits : (Decimal.valueOfDigits (whole ++ fraction) : ℚ) =
      (wholeValue whole + fractionValue fraction) * 10 ^ fraction.length := by
    rw [wholeValue_eq, Decimal.valueOfDigits, Nat.ofDigitChars_append, ofDigitChars_eq]
    rfl
  have hten : (10 : ℚ) ^ fraction.length ≠ 0 := pow_ne_zero _ (by norm_num)
  rw [Decimal.value, hdigits, zpow_neg, zpow_natCast, mul_assoc, mul_inv_cancel₀ hten, mul_one]

/-- A numeral is read as a decimal of the sign and the value that it denotes. -/
theorem Denotes.ofPositional (h : Denotes t negative q) :
    (Decimal.ofPositional t).negative = negative ∧ (Decimal.ofPositional t).value = q := by
  cases h with
  | whole _ whole hw =>
    have hhead := Decimal.head?_ne_minus hw.1 hw.2 []
    rw [List.append_nil] at hhead
    have hvalue := value_digits negative whole []
    rw [List.append_nil, fractionValue, add_zero, List.length_nil, Nat.cast_zero, neg_zero]
      at hvalue
    rw [Decimal.ofPositional_signed hhead, Decimal.ofUnsigned_digits hw.2]
    exact ⟨rfl, hvalue⟩
  | point _ whole fraction hdigits =>
    obtain ⟨-, hw, hf⟩ := isRun_append_iff.mp hdigits
    have hhead : ∀ c ∈ (whole ++ '.' :: fraction).head?, c ≠ '-' := by
      by_cases hwhole : whole = []
      · subst hwhole
        simp
      · exact Decimal.head?_ne_minus hwhole hw _
    rw [Decimal.ofPositional_signed hhead, Decimal.ofUnsigned_point hw hf]
    exact ⟨rfl, value_digits negative whole fraction⟩

theorem Denotes.eq_signFactor_mul (h : Denotes t negative q) : q = signFactor negative * |q| := by
  obtain ⟨hnegative, hvalue⟩ := h.ofPositional
  have hnonneg : (0 : ℚ) ≤ (Decimal.ofPositional t).significand *
      (10 : ℚ) ^ (Decimal.ofPositional t).exponent :=
    mul_nonneg (Nat.cast_nonneg _) (zpow_nonneg (by norm_num) _)
  rw [← hvalue, Decimal.value, hnegative, abs_mul, Binary64.Finite.abs_signFactor, one_mul,
    abs_of_nonneg hnonneg]

end Lexeme

end SExpr
