import Mathlib.Data.List.TakeWhile
import SExpr.Lexeme.Language
import SExpr.Reading.Fault

/-!
# Counts of ellipsis lexemes

An ellipsis lexeme has ASCII digits only, so its count is refused for its length or not at all.
-/
namespace SExpr

variable {c : Char} {t digits : Text}

namespace Text

theorem decimalValue?_of_isDigit (h : c.isDigit = true) :
    decimalValue? c = some (c.toNat - 48) := by
  have hc : 48 ≤ c.toNat ∧ c.toNat < 58 := by
    obtain ⟨hzero, hnine⟩ := Char.isDigit_iff_toNat.mp h
    exact ⟨hzero, Nat.lt_succ_of_le hnine⟩
  simp [decimalValue?, decimalZeros, hc]

theorem isDecimalDigit_of_isDigit (h : c.isDigit = true) : isDecimalDigit c = true := by
  rw [isDecimalDigit, decimalValue?_of_isDigit h]
  rfl

end Text

theorem takeWhile_isDecimalDigit (h : ∀ c ∈ digits, c.isDigit = true) :
    digits.takeWhile Text.isDecimalDigit = digits := by
  rw [List.takeWhile_eq_self_iff]
  intro c hc
  exact Text.isDecimalDigit_of_isDigit (h c hc)

theorem dropWhile_point (h : ∀ c ∈ digits, c.isDigit = true) :
    digits.dropWhile (· = '.') = digits := by
  rw [List.dropWhile_eq_self_iff]
  intro hpos
  have hfirst := h _ (List.getElem_mem hpos)
  intro hpoint
  rw [of_decide_eq_true hpoint] at hfirst
  exact absurd hfirst (by decide)

theorem repeatCount_digits (h : ∀ c ∈ digits, c.isDigit = true)
    (ht : t.dropWhile (· = '.') = digits) : repeatCount t =
      if CountError.digitLimit < digits.length then .error (.tooLong digits.length)
      else .ok (Text.decimalNumber digits) := by
  have hlike : digits.all Text.isDigitLike = true := by
    rw [List.all_eq_true]
    intro c hc
    simp [Text.isDigitLike, Text.isDecimalDigit_of_isDigit (h c hc)]
  unfold repeatCount
  rw [ht]
  by_cases hnil : digits = []
  · subst hnil
    simp [Text.decimalNumber]
  · simp [hnil, hlike, takeWhile_isDecimalDigit h]

theorem Lexeme.IsEllipsis.digits_dropWhile (h : IsEllipsis t) :
    (∀ c ∈ t.dropWhile (· = '.'), c.isDigit = true) ∧
      (t.dropWhile (· = '.')).length = t.countP Char.isDigit := by
  rcases h with rfl | ⟨digits, hrun, rfl⟩
  · have hdrop : "...".toList.dropWhile (· = '.') = [] := rfl
    rw [hdrop]
    exact ⟨by simp, rfl⟩
  · have hdrop : ('.' :: '.' :: digits).dropWhile (· = '.') = digits := dropWhile_point hrun.2
    rw [hdrop]
    have hcount : digits.countP Char.isDigit = digits.length := List.countP_eq_length.mpr hrun.2
    refine ⟨hrun.2, ?_⟩
    rw [List.countP_cons, List.countP_cons, hcount]
    rfl

/-- The count of an ellipsis lexeme is what its digits denote, if they are not too many. -/
theorem repeatCount_of_isEllipsis (h : Lexeme.IsEllipsis t) : repeatCount t =
    if CountError.digitLimit < t.countP Char.isDigit then
      .error (.tooLong (t.countP Char.isDigit))
    else .ok (Text.decimalNumber (t.dropWhile (· = '.'))) := by
  rw [repeatCount_digits h.digits_dropWhile.1 rfl, h.digits_dropWhile.2]

end SExpr
