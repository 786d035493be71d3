import SExpr.Proofs.Number.Value
import SExpr.Proofs.Number.Written

/-!
# Debug texts of numbers

The debug text of a number is read back as the number, with the sign of zero. So it tells the
number, and it ends where a parenthesis comes.
-/
namespace SExpr

variable {c : Char} {t : Text} {negative : Bool}

namespace Decimal

def IsMark (c : Char) : Prop :=
  c.isDigit = true ∨ c ∈ ['-', '.', 'e', '+']

theorem isMark_of_mem_signed (ht : ∀ c ∈ t, IsMark c) : ∀ c ∈ signed negative t, IsMark c := by
  cases negative with
  | false => exact ht
  | true => exact List.forall_mem_cons.mpr ⟨Or.inr (by decide), ht⟩

theorem isMark_of_mem_positional (d : Decimal) : ∀ c ∈ d.positional, IsMark c := by
  obtain ⟨negative, whole, hw, htext | ⟨fraction, hf, htext⟩⟩ := d.isPositional_positional
  · rw [htext]
    exact isMark_of_mem_signed fun c hc => Or.inl (hw.2 c hc)
  · rw [htext]
    exact isMark_of_mem_signed (List.forall_mem_append.mpr ⟨fun c hc => Or.inl (hw.2 c hc),
      List.forall_mem_cons.mpr ⟨Or.inr (by decide), fun c hc => Or.inl (hf.2 c hc)⟩⟩)

theorem isMark_of_mem_scientific (d : Decimal) : ∀ c ∈ d.scientific, IsMark c := by
  have hdigits : ∀ c ∈ d.digits, IsMark c := fun c hc => Or.inl (Text.isDigit_ofNat _ c hc)
  unfold scientific
  apply isMark_of_mem_signed
  refine List.forall_mem_append.mpr ⟨List.forall_mem_append.mpr ⟨?_, ?_⟩, ?_⟩
  · exact fun c hc => hdigits c (List.mem_of_mem_take hc)
  · split
    · exact nofun
    · exact List.forall_mem_cons.mpr
        ⟨Or.inr (by decide), fun c hc => hdigits c (List.mem_of_mem_tail hc)⟩
  · refine List.forall_mem_cons.mpr ⟨Or.inr (by decide), List.forall_mem_cons.mpr ⟨?_, ?_⟩⟩
    · split <;> exact Or.inr (by decide)
    · refine List.forall_mem_append.mpr ⟨fun c hc => Or.inl ?_, fun c hc => Or.inl ?_⟩
      · rw [(List.mem_replicate.mp hc).2]
        rfl
      · exact Text.isDigit_ofNat _ c hc

theorem isMark_of_mem_debug (d : Decimal) : ∀ c ∈ d.debug, IsMark c := by
  unfold debug
  split_ifs
  · refine List.forall_mem_append.mpr ⟨isMark_of_mem_positional d, ?_⟩
    exact List.forall_mem_cons.mpr
      ⟨Or.inr (by decide), List.forall_mem_singleton.mpr (Or.inl rfl)⟩
  · exact isMark_of_mem_positional d
  · exact isMark_of_mem_scientific d

theorem not_mem_debug (d : Decimal) (hc : ¬ IsMark c) : c ∉ d.debug :=
  fun hmem => hc (d.isMark_of_mem_debug c hmem)

end Decimal

namespace Binary64

theorem ofText_debug (x : Binary64) : ofText x.debug = x := by
  cases x with
  | finite x =>
    have hletter : ¬ Decimal.IsMark 'n' := by
      unfold Decimal.IsMark
      decide
    have hname {t : Text} (ht : 'n' ∈ t) : (finite x).debug ≠ t := by
      rintro rfl
      exact x.shortest.not_mem_debug hletter ht
    unfold ofText
    rw [if_neg (hname (by decide)), if_neg (hname (by decide)), if_neg (hname (by decide)), debug,
      Decimal.ofDecimal_ofScientific_debug, Finite.ofDecimal_shortest]
  | infinite negative => cases negative <;> rfl
  | nan => rfl

theorem debug_injective {x y : Binary64} (h : x.debug = y.debug) : x = y := by
  rw [← ofText_debug x, h, ofText_debug]

theorem paren_not_mem_debug (x : Binary64) : ')' ∉ x.debug := by
  cases x with
  | finite x =>
    apply x.shortest.not_mem_debug
    unfold Decimal.IsMark
    decide
  | infinite negative => cases negative <;> decide
  | nan => decide

end Binary64

/-! ## Integers -/

namespace Text

theorem exponentOf_ofInt (n : Int) : Decimal.exponentOf (ofInt n) = n := by
  cases n with
  | ofNat n =>
    have hvalue := Decimal.valueOfDigits_ofNat n
    have hdigits := isDigit_ofNat n
    have hne := ofNat_ne_nil n
    rw [ofInt]
    cases htext : ofNat n with
    | nil => exact absurd htext hne
    | cons c rest =>
      rw [htext] at hvalue hdigits
      have hc : c.isDigit = true := hdigits c List.mem_cons_self
      unfold Decimal.exponentOf
      split
      · rename_i heq
        obtain ⟨rfl, -⟩ := List.cons.inj heq
        exact absurd hc (by decide)
      · rename_i heq
        obtain ⟨rfl, -⟩ := List.cons.inj heq
        exact absurd hc (by decide)
      · exact congrArg Int.ofNat hvalue
  | negSucc n =>
    have hvalue := Decimal.valueOfDigits_ofNat (n + 1)
    rw [ofInt, Decimal.exponentOf, hvalue]
    rfl

theorem ofInt_injective {m n : Int} (h : ofInt m = ofInt n) : m = n := by
  rw [← exponentOf_ofInt m, h, exponentOf_ofInt]

theorem paren_not_mem_ofInt (n : Int) : ')' ∉ ofInt n := by
  have hdigits (n : Nat) : ')' ∉ ofNat n := fun hmem =>
    absurd (isDigit_ofNat n ')' hmem) (by decide)
  cases n with
  | ofNat n => exact hdigits n
  | negSucc n => exact List.not_mem_cons_of_ne_of_not_mem (by decide) (hdigits (n + 1))

end Text

end SExpr
