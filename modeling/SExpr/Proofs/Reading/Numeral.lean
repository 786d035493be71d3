import SExpr.Proofs.Datum.ReadBack
import SExpr.Proofs.Number.Denotation
import SExpr.Proofs.Number.Exact
import SExpr.Proofs.Number.Order

/-!
# Numerals

The source text of a finite number is a single numeral without an exponent. It shows a whole number
with all its digits and any other number by the decimal of its debug text, and it is read back as
the number, with the sign of a zero.

A numeral of any length is read as one number, the one nearest to the rational that it denotes. So
numerals of the same rational and sign are read alike, and a greater rational is never read as a
smaller number.
-/
namespace SExpr

open Binary64 Decimal

theorem tokenize_of_isNumeral {t : Text} (h : Lexeme.IsNumeral t) :
    tokenize t = [⟨.number, t, .start⟩] := by
  have his : Lexeme.Is .number t := h
  have hlong : Lexeme.IsLongest .number t [] := Lexeme.IsLongest.of_delimiter his rfl (by simp)
  have hcut := hlong.cut .nil
  rw [List.append_nil] at hcut
  exact tokenize_eq hcut

theorem parse_written (x : Finite) (filename : Text) :
    parse (finite x).written filename = .ok [.number (finite x)] := by
  obtain ⟨f, hvalue, hform⟩ := writtenAsForm_number ⟨x, rfl⟩
  have hlexemes : HasLexemes (finite x).written ([f].flatMap Form.lexemes) := by
    have hnothing := hform [] [] hasLexemes_nil (by simp [Delimited])
    rwa [List.append_nil] at hnothing
  rw [hlexemes.parse filename, List.map_singleton, hvalue]

/-- A finite number is written without an exponent as a single numeral. A whole number is written as
the integer that it is, a zero with its sign, and any other number as the decimal that its debug
text denotes. The text is read back as the number. -/
theorem written_exact (x : Finite) (filename : Text) :
    IsPositional (finite x).written ∧
    tokenize (finite x).written = [⟨.number, (finite x).written, .start⟩] ∧
    (∀ z : Int, x.value = z →
      (finite x).written = if z = 0 then signed x.negative ['0'] else Text.ofInt z) ∧
    ((¬ ∃ z : Int, x.value = z) →
      ((finite x).written =
        if 'e' ∈ (finite x).debug then (ofScientific (finite x).debug).positional
        else (finite x).debug) ∧
      (ofPositional (finite x).written).value = (ofScientific (finite x).debug).value) ∧
    parse (finite x).written filename = .ok [.number (finite x)] := by
  refine ⟨isPositional_written x, tokenize_of_isNumeral (isNumeral_written x),
    fun z => written_of_value, ?_, parse_written x filename⟩
  intro h
  have hwhole : ¬ x.magnitude.isWhole = true := fun hwhole => h (Finite.isWhole_iff.mp hwhole)
  exact ⟨written_of_not_whole hwhole, value_written_of_not_whole hwhole⟩

/-! ## Reading numerals -/

theorem parse_of_isNumeral {t : Text} (h : Lexeme.IsNumeral t) (filename : Text) :
    parse t filename = .ok [.number (ofDecimal (.ofPositional t))] := by
  have his : Lexeme.Is .number t := h
  have hlexemes := hasLexemes_nil.cons his rfl (by simp [Delimited]) nofun
  rw [List.append_nil] at hlexemes
  have hforms : HasLexemes t ([Form.number t].flatMap Form.lexemes) := hlexemes
  exact hforms.parse filename

/-- A numeral is rounded to the number nearest to what it denotes. -/
theorem Lexeme.Denotes.isNearest {t : Text} {negative : Bool} {q : ℚ}
    (h : Denotes t negative q) : (ofDecimal (.ofPositional t)).IsNearest negative q := by
  obtain ⟨rfl, rfl⟩ := h.ofPositional
  exact isNearest_ofDecimal (.ofPositional t)

theorem Lexeme.Denotes.ofDecimal_eq {t t' : Text} {negative : Bool} {q : ℚ}
    (h : Denotes t negative q) (h' : Denotes t' negative q) :
    ofDecimal (.ofPositional t) = ofDecimal (.ofPositional t') := by
  obtain ⟨hnegative, hvalue⟩ := h.ofPositional
  obtain ⟨hnegative', hvalue'⟩ := h'.ofPositional
  exact ofDecimal_eq_of_value (hnegative.trans hnegative'.symm) (hvalue.trans hvalue'.symm)

/-- A numeral denotes exactly one rational with a sign, and it is read as the number nearest to it.
Any numeral of the same rational and sign is read as the same number, and a numeral of a greater
rational is not read as a smaller number. -/
theorem parse_numeral {t : Text} (h : Lexeme.IsNumeral t) (filename : Text) :
    ∃ negative q x, Lexeme.Denotes t negative q ∧
      (∀ negative' q', Lexeme.Denotes t negative' q' → negative' = negative ∧ q' = q) ∧
      parse t filename = .ok [.number x] ∧ x.IsNearest negative q ∧
      ∀ t' negative' q', Lexeme.Denotes t' negative' q' →
        ∃ x', parse t' filename = .ok [.number x'] ∧
          (negative = negative' → q = q' → x = x') ∧ (q ≤ q' → x.AtMost x') := by
  obtain ⟨negative, q, ht⟩ := Lexeme.isNumeral_iff_denotes.mp h
  refine ⟨negative, q, ofDecimal (.ofPositional t), ht, ?_, parse_of_isNumeral h filename,
    ht.isNearest, ?_⟩
  · intro negative' q' ht'
    obtain ⟨hnegative, hvalue⟩ := ht.ofPositional
    obtain ⟨hnegative', hvalue'⟩ := ht'.ofPositional
    exact ⟨hnegative'.symm.trans hnegative, hvalue'.symm.trans hvalue⟩
  · intro t' negative' q' ht'
    have his' := Lexeme.isNumeral_iff_denotes.mpr ⟨_, _, ht'⟩
    refine ⟨_, parse_of_isNumeral his' filename, ?_, fun hle => ?_⟩
    · rintro rfl rfl
      exact ht.ofDecimal_eq ht'
    rcases lt_or_eq_of_le hle with hlt | rfl
    · exact ht.isNearest.atMost_of_lt ht'.isNearest ht.eq_signFactor_mul ht'.eq_signFactor_mul hlt
    · by_cases hsign : negative = negative'
      · obtain rfl := hsign
        rw [← ht.ofDecimal_eq ht']
        exact ht.isNearest.atMost_self
      · -- only zero is denoted with either sign
        have hzero : |q| = 0 := eq_zero_of_signs hsign ht.eq_signFactor_mul ht'.eq_signFactor_mul
        have hsmall : |q| ≤ (2 : ℚ) ^ (-1075 : Int) := by
          rw [hzero]
          exact zpow_nonneg two_pos.le _
        rw [ht.isNearest.underflow hsmall, ht'.isNearest.underflow hsmall]
        exact (Finite.value_zero negative).trans_le (Finite.value_zero negative').ge

/-- An integer halfway between two numbers, of which the even one is taken. -/
theorem parse_numeral_halfway : Lexeme.IsNumeral "-9007199254740993.".toList ∧
    ∃ x, parse "-9007199254740993.".toList = .ok [.number x] ∧
      x.IsNearest true (-9007199254740993) := by
  have hdenotes : Lexeme.Denotes "-9007199254740993.".toList true _ :=
    .point true "9007199254740993".toList [] ⟨by decide, List.all_eq_true.mp (by decide)⟩
  have hvalue : Decimal.valueOfDigits "9007199254740993".toList = 9007199254740993 := by decide
  rw [Lexeme.wholeValue_eq, hvalue, Lexeme.fractionValue] at hdenotes
  norm_num [signFactor] at hdenotes
  have his := Lexeme.isNumeral_iff_denotes.mpr ⟨_, _, hdenotes⟩
  obtain ⟨negative, q, x, -, hunique, hparse, hnearest, -⟩ := parse_numeral his defaultFilename
  obtain ⟨rfl, rfl⟩ := hunique _ _ hdenotes
  exact ⟨his, x, hparse, hnearest⟩

end SExpr
