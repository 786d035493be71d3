import Mathlib.Data.List.Forall2
import SExpr.Datum.Equality

/-!
# Equality of data by value

Equality by value does not depend on which datum comes first, and chains of equal items with equal
tails are equal. A number that is read from decimal digits is never NaN, so it equals itself.
-/
namespace SExpr

namespace Binary64

theorem sameValue_comm (x y : Binary64) : x.sameValue y = y.sameValue x := by
  cases x <;> cases y <;> simp [sameValue, eq_comm, Bool.and_comm]

theorem sameValue_self {x : Binary64} (h : x ≠ nan) : x.sameValue x = true := by
  cases x with
  | finite value => simp [sameValue]
  | infinite negative => simp [sameValue]
  | nan => exact absurd rfl h

theorem ofFields_ne_nan (negative : Bool) (significand : Nat) (exponent : Int) :
    ofFields negative significand exponent ≠ nan := by
  unfold ofFields
  split <;> simp

theorem ofDecimal_ne_nan (d : Decimal) : ofDecimal d ≠ nan := by
  unfold ofDecimal ofRatio
  split_ifs
  · simp
  · dsimp only
    split_ifs <;> exact ofFields_ne_nan _ _ _

end Binary64

namespace Datum

variable {d d' : Datum} {items items' : List Datum}

theorem sameValue_comm (d d' : Datum) : d.sameValue d' = d'.sameValue d := by
  induction d generalizing d' with
  | number x =>
    cases d' with
    | number y => exact x.sameValue_comm y
    | _ => rfl
  | cons car cdr ihcar ihcdr =>
    cases d' with
    | cons car' cdr' => rw [sameValue, sameValue, ihcar, ihcdr]
    | _ => rfl
  | _ => cases d' <;> simp [sameValue, eq_comm]

theorem sameValue_symm (h : d.sameValue d' = true) : d'.sameValue d = true :=
  (d'.sameValue_comm d).trans h

/-- Equality of items by value, one by one. -/
abbrev SameItems : List Datum → List Datum → Prop :=
  List.Forall₂ fun d d' => d.sameValue d' = true

theorem sameValues_iff {ds ds' : List Datum} : sameValues ds ds' = true ↔ SameItems ds ds' := by
  induction ds generalizing ds' with
  | nil => cases ds' <;> simp [sameValues]
  | cons d ds ih => cases ds' <;> simp [sameValues, ih]

theorem SameItems.reverse (h : SameItems items items') :
    SameItems items.reverse items'.reverse :=
  List.forall₂_reverse_iff.mpr h

theorem sameValue_ofItems (hitems : SameItems items items') (htail : d.sameValue d' = true) :
    (ofItems items d).sameValue (ofItems items' d') = true := by
  induction hitems with
  | nil => exact htail
  | cons hitem _ ih => exact Bool.and_eq_true_iff.mpr ⟨hitem, ih⟩

end Datum

end SExpr
