import SExpr.Datum.Print
import SExpr.Proofs.Datum.ReadBack

/-!
# Printing readable data

No finite number has more digits than an integer may have, and no count that a source text can hold
has. So printing a readable datum never fails.
-/
namespace SExpr

variable {d : Datum}

/-! ## Integers -/

namespace Text

theorem printNat_eq (n : Nat) : printNat n =
    if n < Nat.pow 10 CountError.digitLimit then .ok (ofNat n) else .error .tooLarge := by
  have hdigits : (ofNat n).length ≤ CountError.digitLimit ↔ n < Nat.pow 10 CountError.digitLimit :=
    length_ofNat_le_iff (by decide)
  unfold printNat
  by_cases h : (ofNat n).length ≤ CountError.digitLimit
  · rw [if_neg (Nat.not_lt.mpr h), if_pos (hdigits.mp h)]
  · rw [if_pos (Nat.lt_of_not_le h), if_neg (mt hdigits.mpr h)]

theorem printInt_eq (z : Int) : printInt z =
    if z.natAbs < Nat.pow 10 CountError.digitLimit then .ok (ofInt z) else .error .tooLarge := by
  cases z with
  | ofNat n => exact printNat_eq n
  | negSucc n =>
    rw [printInt, printNat_eq, Int.natAbs_negSucc, apply_ite (Except.map ('-' :: ·))]
    rfl

end Text

theorem Datum.printEllipsis_eq (count : Int) : printEllipsis count =
    if count.natAbs < Nat.pow 10 CountError.digitLimit then .ok (ellipsisSource count)
    else .error .tooLarge := by
  by_cases hzero : count = 0
  · have hpos : ∀ k, 0 < Nat.pow 10 k := fun k => Nat.pow_pos (by decide)
    subst hzero
    rw [printEllipsis, ellipsisSource, if_pos rfl, if_pos rfl]
    exact (if_pos (hpos _)).symm
  · rw [printEllipsis, ellipsisSource, if_neg hzero, if_neg hzero, Text.printInt_eq,
      apply_ite (Except.map ("..".toList ++ ·))]
    rfl

/-! ## Numbers -/

theorem lt_pow_ten {n places limit : Nat} (h : n < Nat.pow 2 places) (hle : places ≤ limit) :
    n < Nat.pow 10 limit :=
  calc n < Nat.pow 2 places := h
    _ ≤ Nat.pow 10 places := Nat.pow_le_pow_left (by decide) places
    _ ≤ Nat.pow 10 limit := Nat.pow_le_pow_right (by decide) hle

theorem Ratio.floor_ofScaled_lt {significand places shift : Nat} {exponent : Int}
    (hsignificand : significand < Nat.pow 2 places) (hexponent : exponent ≤ shift) :
    (Ratio.ofScaled significand 2 exponent).floor < Nat.pow 2 (places + shift) :=
  calc (Ratio.ofScaled significand 2 exponent).floor
    _ ≤ significand * Nat.pow 2 exponent.toNat := Nat.div_le_self _ _
    _ ≤ significand * Nat.pow 2 shift :=
      Nat.mul_le_mul_left _ (Nat.pow_le_pow_right (by decide) (Int.toNat_le.mpr hexponent))
    _ < Nat.pow 2 places * Nat.pow 2 shift :=
      Nat.mul_lt_mul_of_pos_right hsignificand (Nat.pow_pos (by decide))
    _ = Nat.pow 2 (places + shift) := (Nat.pow_add 2 places shift).symm

namespace Binary64

/-- The whole part of a finite number can be printed: it has at most 1024 binary digits. -/
theorem Finite.printNat_floor_magnitude (x : Finite) :
    Text.printNat x.magnitude.floor = .ok (Text.ofNat x.magnitude.floor) := by
  obtain ⟨hsignificand, -, hexponent, -⟩ := x.canonical
  have hbits : x.magnitude.floor < _ := Ratio.floor_ofScaled_lt hsignificand hexponent
  rw [Text.printNat_eq, if_pos (lt_pow_ten hbits (by decide))]

theorem print_eq (x : Binary64) : x.print = .ok x.written := by
  cases x with
  | finite x =>
    rw [print, written, x.printNat_floor_magnitude, x.positional_wholePart]
    exact (apply_ite _ _ _ _).symm
  | infinite negative => rfl
  | nan => rfl

end Binary64

/-! ## Data -/

namespace Datum

theorem print_printParts_of_readable (d : Datum) : (d.Readable → d.print = .ok d.source) ∧
    (d.ReadableTail → d.printParts = .ok d.parts) := by
  induction d with
  | number x =>
    refine ⟨fun _ => x.print_eq, fun _ => ?_⟩
    rw [printParts, x.print_eq]
    rfl
  | cons car cdr ihcar ihcdr =>
    have hparts : (cons car cdr).Readable →
        car.print = .ok car.source ∧ cdr.printParts = .ok cdr.parts := by
      intro h
      obtain ⟨hcar, hcdr⟩ := readable_cons h
      exact ⟨ihcar.1 hcar, ihcdr.2 hcdr⟩
    refine ⟨fun h => ?_, fun h => ?_⟩
    · obtain ⟨hcar, hcdr⟩ := hparts h
      rw [print, hcar, hcdr]
      rfl
    · obtain ⟨hcar, hcdr⟩ := hparts (h.readable (by simp))
      rw [printParts, hcar, hcdr]
      rfl
  | ellipsis n =>
    refine ⟨fun h => h.elim, fun h => ?_⟩
    rcases h with h | ⟨m, heq, hcount⟩
    · exact h.elim
    · cases heq
      have hlt : n.natAbs < Nat.pow 10 CountError.digitLimit := by
        obtain ⟨k, rfl⟩ := Int.eq_ofNat_of_zero_le hcount.1
        exact hcount.2
      rw [printParts, printEllipsis_eq, if_pos hlt]
      rfl
  | _ => exact ⟨fun _ => rfl, fun _ => rfl⟩

/-- Printing a readable datum gives its source text. -/
theorem print_of_readable (h : d.Readable) : d.print = .ok d.source :=
  (print_printParts_of_readable d).1 h

theorem map_print_of_readable {data : List Datum} (h : ∀ d ∈ data, d.Readable) :
    data.map print = (data.map source).map .ok := by
  rw [List.map_map]
  exact List.map_congr_left fun d hd => print_of_readable (h d hd)

/-! ## Limited nesting -/

end Datum

end SExpr
