import SExpr.Proofs.Reading.Descent
import SExpr.Proofs.Reading.Removed

/-!
# Reading ends

Scanning moves on, no operation moves back, and no loop or recursion of the reader goes on forever.
What bounds them is the number of tokens that are left in a stream, whatever was done to it before.
-/
namespace SExpr

variable {α : Type} {source : Text} {s : TokenStream} {x : Descent α}
  {r : Except ReadError α × TokenStream} {n : Nat}

/-- A descent ends on a stream with an outcome and a stream that is left. Of the tokens that it
takes, no more than some number are not the end of the input. -/
def Descent.EndsWithin (x : Descent α) (s : TokenStream) (n : Nat)
    (r : Except ReadError α × TokenStream) : Prop :=
  ∃ taken, x ⟨s, []⟩ = some (r.1, ⟨r.2, taken⟩) ∧
    (taken.filter (·.kind ≠ .endOfInput)).length ≤ n

theorem Descent.Runs.endsWithin (h : Runs source x s r) (hn : s.drain.1.length ≤ n) :
    x.EndsWithin s n r := by
  obtain ⟨taken, hx, htaken⟩ := h.exists_taken
  refine ⟨taken, hx [], ?_⟩
  rw [← htaken, List.length_append] at hn
  exact (Nat.le_add_right _ _).trans hn

theorem Cursor.offset_lt_scan {c : Cursor} (h : c.scan.1.kind ≠ .endOfInput) :
    c.offset < c.scan.2.offset := by
  have hlength := length_ahead_scan_lt h
  rw [← c.text_append_scan, List.length_append] at hlength
  rw [c.offset_scan]
  omega

namespace TokenStream

/-- After any operations, a scan that finds more than the end of the input moves on, and no
operation moves back. Every loop over the tokens that are left then and every reading of them ends
with an outcome, and takes no more than these. No loop needs more rounds than there are tokens left,
and one, and no more calls that read a datum need to be nested in one another. -/
theorem reading_ends (source filename : Text) (ops : List Operation) :
    let s := (ofText source).after filename ops
    let n := s.rest.length
    (s.cursor.scan.1.kind ≠ .endOfInput → s.cursor.offset < s.cursor.scan.2.offset) ∧
      (∀ op, s.cursor.offset ≤ (s.perform filename op).2.cursor.offset) ∧
      (∀ withBlanks, (Descent.tokens withBlanks (n + 1)).EndsWithin s n
        ((s.listTokens withBlanks).map .ok id)) ∧
      (Descent.blanks filename (n + 1)).EndsWithin s n (s.skipTrivia filename) ∧
      (Descent.datum filename (n + 1) (n + 1)).EndsWithin s n (s.readDatum filename) ∧
      (∀ opener, (Descent.listAfter filename (n + 1) (n + 1) opener).EndsWithin s n
        (s.readList filename opener)) ∧
      (Descent.all filename (n + 1) (n + 1)).EndsWithin s n (s.readAll filename) := by
  intro s n
  have hs : s.StandsIn source := standsIn_after source filename ops
  have hn : s.drain.1.length ≤ n := (congrArg List.length hs.rest_eq).ge
  have hless := Nat.lt_succ_of_le hn
  refine ⟨Cursor.offset_lt_scan, fun op => (hs.movesOn filename op).offset_le, fun withBlanks => ?_,
    ?_, ?_, fun opener => ?_, ?_⟩
  · exact (Descent.runs_tokens hs withBlanks hless).endsWithin hn
  · exact (Descent.runs_blanks hs filename hless).endsWithin hn
  · exact (Descent.runs_datum hs hless hless).endsWithin hn
  · exact (Descent.runs_listAfter hs hless hless opener).endsWithin hn
  · exact (Descent.runs_all hs hless hless).endsWithin hn

end TokenStream

/-! ## Limited nesting -/

namespace Descent

variable {β : Type} {y : Descent α} {filename : Text} {rounds calls calls' : Nat}
  {next next' datum datum' : Descent Datum} {b : Bracket} {read : List Datum}

/-- Every outcome of one descent is an outcome of another. -/
def Below (x y : Descent α) : Prop :=
  ∀ state outcome, x state = some outcome → y state = some outcome

theorem Below.refl (x : Descent α) : Below x x :=
  fun _ _ h => h

theorem Below.bind {f g : α → Descent β} (hx : Below x y) (hf : ∀ a, Below (f a) (g a)) :
    Below (x >>= f) (y >>= g) := by
  intro state outcome h
  cases hstate : x state with
  | none =>
    change (x state >>= fun p => ExceptT.bindCont f p.1 p.2) = some outcome at h
    rw [hstate] at h
    cases h
  | some answered =>
    obtain ⟨e | a, state'⟩ := answered
    · rw [bind_error hstate] at h
      rw [bind_error (hx _ _ hstate), h]
    · rw [bind_ok hstate] at h
      rw [bind_ok (hx _ _ hstate)]
      exact hf a _ _ h

theorem Below.item (h : Below datum datum') :
    Below (item filename datum rounds) (Descent.item filename datum' rounds) :=
  h.bind fun _ => .refl _

theorem Below.items (h : Below next next') (rounds : Nat) (read : List Datum) :
    Below (items next rounds read) (Descent.items next' rounds read) := by
  induction rounds generalizing read with
  | zero => exact .refl _
  | succ rounds ih =>
    refine (Below.refl peek).bind fun token => ?_
    split_ifs
    · exact .refl _
    · exact h.bind fun d => ih (d :: read)

theorem Below.tail (h : Below datum datum') :
    Below (tail filename datum read) (Descent.tail filename datum' read) := by
  refine (Below.refl peek).bind fun token => ?_
  split_ifs
  · exact .refl _
  · exact (Below.refl pop).bind fun _ => h
  · exact .refl _
  · exact .refl _

theorem Below.list (h : Below datum datum') :
    Below (list filename datum rounds b) (Descent.list filename datum' rounds b) := by
  refine (Below.refl (blanks filename rounds)).bind fun _ => (Below.refl peek).bind fun token => ?_
  split_ifs
  · exact .refl _
  · exact (h.item.items rounds []).bind fun read => h.tail.bind fun _ => .refl _

theorem Below.dataFrom (h : Below next next') (rounds : Nat) :
    Below (dataFrom next rounds) (Descent.dataFrom next' rounds) := by
  induction rounds with
  | zero => exact .refl _
  | succ rounds ih =>
    refine (Below.refl peek).bind fun token => ?_
    split_ifs
    · exact .refl _
    · exact h.bind fun d => ih.bind fun _ => .refl _

end Descent

end SExpr
