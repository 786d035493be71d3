import SExpr.Datum.Dispatch
import SExpr.Datum.Equality
import SExpr.Proofs.Number.Value

/-!
# Alike data

Two finite numbers have one value just if they are the same or both of them are zeros. Data are
alike if they have the same shape and the same leaves, numbers of one value counting as the same.
Comparing chains in step finds out just that, whatever objects the two data share, as long as there
is no NaN in them.
-/
namespace SExpr.Binary64

/-! ## Numbers of one value -/

/-- Numbers of one value. NaN has no value. -/
inductive SameNumber : Binary64 → Binary64 → Prop
  | finite {x y : Finite} : x.value = y.value → SameNumber (.finite x) (.finite y)
  | infinite (negative : Bool) : SameNumber (.infinite negative) (.infinite negative)

theorem SameNumber.symm {x y : Binary64} (h : x.SameNumber y) : y.SameNumber x := by
  cases h with
  | finite h => exact .finite h.symm
  | infinite negative => exact .infinite negative

theorem SameNumber.trans {x y z : Binary64} (h : x.SameNumber y) (h' : y.SameNumber z) :
    x.SameNumber z := by
  cases h with
  | finite h =>
    cases h' with
    | finite h' => exact .finite (h.trans h')
  | infinite negative => exact h'

variable {x y : Finite}

namespace Finite

theorem value_eq_zero_iff : x.value = 0 ↔ x.significand = 0 := by
  have hpow : (2 : ℚ) ^ x.exponent ≠ 0 := zpow_ne_zero _ two_ne_zero
  simp [value, signFactor_ne_zero, hpow]

theorem significand_eq_zero_of_value_eq (h : x.value = y.value) (hzero : x.significand = 0) :
    y.significand = 0 := by
  rw [← value_eq_zero_iff, ← h, value_eq_zero_iff, hzero]

theorem eq_of_value_eq (h : x.value = y.value) (hne : x.significand ≠ 0) : x = y := by
  have hmagnitude : x.magnitude.value = y.magnitude.value := by
    rw [← abs_value, ← abs_value, h]
  have hzero : y.magnitude.value ≠ 0 := by
    rw [← abs_value, ← h, Ne, abs_eq_zero]
    exact fun hx => hne (value_eq_zero_iff.mp hx)
  have hsign : x.negative = y.negative := by
    rw [value_eq_magnitude, value_eq_magnitude, hmagnitude] at h
    have hfactor := mul_right_cancel₀ hzero h
    by_contra hdiffer
    rw [Bool.eq_not.mpr hdiffer, signFactor_not] at hfactor
    exact signFactor_ne_zero y.negative (self_eq_neg.mp hfactor.symm)
  have hsame := Ratio.same_of_value x.den_magnitude_pos y.den_magnitude_pos hmagnitude
  apply Binary64.finite.inj
  rw [← ofRatio_magnitude, ← ofRatio_magnitude, hsign]
  exact ofRatio_eq_of_same x.den_magnitude_pos y.den_magnitude_pos hsame

end Finite

theorem sameValue_iff {x y : Binary64} : x.sameValue y = true ↔ SameNumber x y := by
  constructor
  · intro h
    cases x with
    | finite x =>
      cases y with
      | finite y =>
        refine .finite ?_
        rcases Bool.or_eq_true_iff.mp h with h | h
        · rw [of_decide_eq_true h]
        · obtain ⟨hx, hy⟩ := Bool.and_eq_true_iff.mp h
          rw [Finite.value_eq_zero_iff.mpr (of_decide_eq_true hx),
            Finite.value_eq_zero_iff.mpr (of_decide_eq_true hy)]
      | _ => cases h
    | infinite negative =>
      cases y with
      | infinite negative' =>
        obtain rfl : negative = negative' := of_decide_eq_true h
        exact .infinite negative
      | _ => cases h
    | nan => cases h
  · rintro (@⟨x, y, h⟩ | negative)
    · by_cases hzero : x.significand = 0
      · have hzero' := Finite.significand_eq_zero_of_value_eq h hzero
        simp [sameValue, hzero, hzero']
      · rw [Finite.eq_of_value_eq h hzero]
        simp [sameValue]
    · simp [sameValue]

end SExpr.Binary64

/-! ## Data -/

namespace SExpr.Datum

/-- The same shape and the same leaves. -/
inductive Alike : Datum → Datum → Prop
  | number {x y : Binary64} : x.SameNumber y → Alike (number x) (number y)
  | boolean (b : Bool) : Alike (boolean b) (boolean b)
  | symbol (name : Text) : Alike (symbol name) (symbol name)
  | nil : Alike nil nil
  | cons {a b as bs : Datum} : Alike a b → Alike as bs → Alike (cons a as) (cons b bs)
  | ellipsis (count : Int) : Alike (ellipsis count) (ellipsis count)

def WithoutNaN : Datum → Prop
  | number x => x ≠ .nan
  | cons car cdr => car.WithoutNaN ∧ cdr.WithoutNaN
  | _ => True

def at? : Datum → List Side → Option Datum
  | d, [] => some d
  | cons car _, .car :: place => car.at? place
  | cons _ cdr, .cdr :: place => cdr.at? place
  | _, _ => none

/-- Where two data are one object, the same stands in both. -/
def SharedIn (shared : List Side → Bool) (d d' : Datum) : Prop :=
  ∀ place, shared place = true → d.at? place = d'.at? place

variable {d d' d'' a b as bs : Datum} {shared : List Side → Bool}

theorem SharedIn.none (d d' : Datum) : SharedIn (fun _ => false) d d' := nofun

theorem SharedIn.car (h : SharedIn shared (cons a as) (cons b bs)) :
    SharedIn (fun place => shared (.car :: place)) a b :=
  fun place hplace => h (.car :: place) hplace

theorem SharedIn.cdr (h : SharedIn shared (cons a as) (cons b bs)) :
    SharedIn (fun place => shared (.cdr :: place)) as bs :=
  fun place hplace => h (.cdr :: place) hplace

/-! ## An equivalence -/

theorem Alike.refl (h : d.WithoutNaN) : d.Alike d := by
  induction d with
  | number x =>
    cases x with
    | finite x => exact .number (.finite rfl)
    | infinite negative => exact .number (.infinite negative)
    | nan => exact absurd rfl h
  | boolean b => exact .boolean b
  | symbol name => exact .symbol name
  | nil => exact .nil
  | cons car cdr ihcar ihcdr => exact .cons (ihcar h.1) (ihcdr h.2)
  | ellipsis count => exact .ellipsis count

theorem Alike.symm (h : d.Alike d') : d'.Alike d := by
  induction h with
  | number h => exact .number h.symm
  | boolean b => exact .boolean b
  | symbol name => exact .symbol name
  | nil => exact .nil
  | cons _ _ ihcar ihcdr => exact .cons ihcar ihcdr
  | ellipsis count => exact .ellipsis count

theorem Alike.trans (h : d.Alike d') (h' : d'.Alike d'') : d.Alike d'' := by
  induction h generalizing d'' with
  | number h =>
    cases h' with
    | number h' => exact .number (h.trans h')
  | cons _ _ ihcar ihcdr =>
    cases h' with
    | cons hcar hcdr => exact .cons (ihcar hcar) (ihcdr hcdr)
  | boolean b => exact h'
  | symbol name => exact h'
  | nil => exact h'
  | ellipsis count => exact h'

theorem Alike.variant_eq (h : d.Alike d') : d.variant = d'.variant := by
  cases h <;> rfl

theorem alike_cons_iff : Alike (cons a as) (cons b bs) ↔ Alike a b ∧ Alike as bs := by
  constructor
  · intro h
    cases h with
    | cons hcar hcdr => exact ⟨hcar, hcdr⟩
  · exact fun h => .cons h.1 h.2

/-! ## Comparing in step -/

theorem sameLeaf_iff (h : ∀ a as, d ≠ cons a as) : d.sameLeaf d' = true ↔ d.Alike d' := by
  constructor
  · intro hsame
    cases d <;> cases d' <;> simp only [sameLeaf, decide_eq_true_eq, Bool.false_eq_true] at hsame
    case number x y => exact .number (Binary64.sameValue_iff.mp hsame)
    case boolean => exact hsame ▸ .boolean _
    case symbol => exact hsame ▸ .symbol _
    case nil => exact .nil
    case ellipsis => exact hsame ▸ .ellipsis _
  · intro halike
    cases halike with
    | number hsame => exact Binary64.sameValue_iff.mpr hsame
    | cons => exact absurd rfl (h _ _)
    | _ => simp [sameLeaf]

/-- Comparing both parts of a pair finds out the same as comparing in step. -/
theorem sameValue_iff : d.sameValue d' = true ↔ d.Alike d' := by
  induction d generalizing d' with
  | cons a as iha ihas =>
    cases d' with
    | cons b bs => rw [sameValue, Bool.and_eq_true_iff, iha, ihas, alike_cons_iff]
    | _ => exact iff_of_false nofun nofun
  | _ =>
    refine Iff.trans ?_ (sameLeaf_iff nofun)
    cases d' <;> rfl

/-- Data without NaN compare equal just if they are alike. -/
theorem equal_iff (h : d.WithoutNaN) (hshared : SharedIn shared d d') :
    d.equal d' shared = true ↔ d.Alike d' := by
  induction d generalizing d' shared with
  | cons a as iha ihas =>
    cases d' with
    | cons b bs =>
      rw [equal]
      by_cases hobject : shared [] = true
      · -- one object is alike to itself
        obtain ⟨rfl, rfl⟩ := cons.inj (Option.some.inj (hshared [] hobject))
        simp [hobject, Alike.refl h]
      · rw [alike_cons_iff, ← iha h.1 hshared.car, ← ihas h.2 hshared.cdr]
        simp [hobject]
    | _ => exact iff_of_false nofun nofun
  | _ => exact sameLeaf_iff nofun

end SExpr.Datum
