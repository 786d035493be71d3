import SExpr.Proofs.Datum.Denoted
import SExpr.Proofs.Reading.Newlines

/-!
# Settled data

An infinite number is written by a name that is read as a symbol. Data in which these symbols stand
for the infinite numbers are written alike, and they are read back as they are.
-/
namespace SExpr

open Text

variable {d : Datum}

namespace Datum

/-! ## Infinite numbers as symbols -/

/-- The datum with the name of every infinite number in place of the number. -/
def settled : Datum → Datum
  | number (.infinite negative) => symbol (Binary64.infinityText negative)
  | cons car cdr => cons car.settled cdr.settled
  | d => d

theorem source_parts_settled (d : Datum) :
    d.settled.source = d.source ∧ d.settled.parts = d.parts := by
  induction d with
  | number x => cases x <;> exact ⟨rfl, rfl⟩
  | cons car cdr ihcar ihcdr =>
    rw [settled, source, source, parts, parts, ihcar.1, ihcdr.2]
    exact ⟨rfl, rfl⟩
  | _ => exact ⟨rfl, rfl⟩

theorem source_settled (d : Datum) : d.settled.source = d.source :=
  (source_parts_settled d).1

theorem map_source_settled (data : List Datum) :
    (data.map settled).map source = data.map source := by
  rw [List.map_map]
  exact List.map_congr_left fun d _ => source_settled d

theorem isSymbolName_infinityText (negative : Bool) :
    Lexeme.IsSymbolName (Binary64.infinityText negative) := by
  -- after a minus sign, the name starts with a letter and not with a digit
  have hletter : ¬ ∃ d ∈ "inf".toList.head?, d.isDigit = true := by
    rintro ⟨d, hd, hdigit⟩
    cases hd
    cases hdigit
  cases negative with
  | false =>
    exact Lexeme.isSymbolName_cons.mpr
      ⟨⟨by decide, List.all_eq_true.mp (by decide)⟩, fun h => absurd h.1 (by decide)⟩
  | true =>
    exact Lexeme.isSymbolName_cons.mpr
      ⟨⟨by decide, List.all_eq_true.mp (by decide)⟩, fun h => hletter h.2⟩

/-- A readable datum can be read when it is settled, and then its numbers are finite. -/
theorem settled_readable (h : d.Readable) : d.settled.Readable ∧ d.settled.IsFinite := by
  induction d with
  | number x =>
    cases x with
    | finite value => exact ⟨h, value, rfl⟩
    | infinite negative => exact ⟨isSymbolName_infinityText negative, trivial⟩
    | nan => exact absurd rfl h
  | cons car cdr ihcar ihcdr =>
    obtain ⟨hcar, hcdr⟩ := readable_cons h
    have hitem := ihcar hcar
    rw [settled]
    rcases hcdr with hcdr | ⟨n, rfl, hn⟩
    · have hrest := ihcdr hcdr
      exact ⟨readable_cons_of hitem.1 (Or.inl hrest.1), hitem.2, hrest.2⟩
    · exact ⟨readable_cons_of hitem.1 (Or.inr ⟨n, rfl, hn⟩), hitem.2, trivial⟩
  | boolean b => exact ⟨h, trivial⟩
  | symbol name => exact ⟨h, trivial⟩
  | nil => exact ⟨h, trivial⟩
  | ellipsis n => exact h.elim

/-! ## Data on one line -/

theorem isLine_written (x : Binary64) : x.written.IsLine := by
  cases x with
  | finite value =>
    have his : Lexeme.Is .number (Binary64.finite value).written :=
      Binary64.isNumeral_written value
    exact his.isLine (by simp)
  | infinite negative => cases negative <;> decide
  | nan => decide

theorem isLine_ellipsisSource {n : Int} (h : IsRepeatCount n) : (ellipsisSource n).IsLine := by
  obtain ⟨m, rfl⟩ := Int.eq_ofNat_of_zero_le h.1
  have his : Lexeme.Is .ellipsis (ellipsisSource m) := (ellipsisSource_spec m).1
  exact his.isLine (by simp)

theorem isLine_bracketed {parts : List Text} (h : ∀ t ∈ parts, t.IsLine) :
    (bracketed parts).IsLine := by
  have hjoin : (Text.join [' '] parts).IsLine := by
    cases parts with
    | nil => decide
    | cons part parts =>
      obtain ⟨hpart, hparts⟩ := List.forall_mem_cons.mp h
      rw [join_cons, isLine_append]
      exact ⟨hpart, isLine_flatMap (by decide) hparts⟩
  rw [bracketed, isLine_append, isLine_cons]
  exact ⟨⟨by decide, hjoin⟩, by decide⟩

theorem isLine_source_parts (d : Datum) :
    (d.Readable → d.source.IsLine) ∧ (d.ReadableTail → ∀ t ∈ d.parts, t.IsLine) := by
  -- behind a point, an atom is written as it is written alone
  have hatom : ∀ {d : Datum}, d.parts = [['.'], d.source] → (∀ n, d ≠ .ellipsis n) →
      (d.Readable → d.source.IsLine) → d.ReadableTail → ∀ t ∈ d.parts, t.IsLine := by
    intro d hparts hne hline h
    rw [hparts, List.forall_mem_cons, List.forall_mem_singleton]
    exact ⟨by decide, hline (h.readable hne)⟩
  induction d with
  | number x =>
    have hline : (number x).Readable → (number x).source.IsLine := fun _ => isLine_written x
    exact ⟨hline, hatom rfl (by simp) hline⟩
  | boolean b =>
    have hline : (boolean b).Readable → (boolean b).source.IsLine := by
      intro _
      cases b <;> decide
    exact ⟨hline, hatom rfl (by simp) hline⟩
  | symbol name =>
    have hline : (symbol name).Readable → (symbol name).source.IsLine := by
      intro h
      have his : Lexeme.Is .symbol name := h
      exact his.isLine (by simp)
    exact ⟨hline, hatom rfl (by simp) hline⟩
  | nil => exact ⟨fun _ => by decide, fun _ => by simp [parts]⟩
  | cons car cdr ihcar ihcdr =>
    have hparts : (cons car cdr).Readable → ∀ t ∈ car.source :: cdr.parts, t.IsLine := by
      intro h
      obtain ⟨hcar, hcdr⟩ := readable_cons h
      exact List.forall_mem_cons.mpr ⟨ihcar.1 hcar, ihcdr.2 hcdr⟩
    exact ⟨fun h => isLine_bracketed (hparts h), fun h => hparts (h.readable (by simp))⟩
  | ellipsis n =>
    refine ⟨fun h => h.elim, fun h => ?_⟩
    rcases h with h | ⟨m, heq, hcount⟩
    · exact h.elim
    · cases heq
      exact List.forall_mem_singleton.mpr (isLine_ellipsisSource hcount)

theorem isLine_source (h : d.Readable) : d.source.IsLine :=
  (isLine_source_parts d).1 h

end Datum

end SExpr
