import SExpr.Number.Binary64

/-!
# Data

A datum is an atom or a pair. Lists are chains of pairs: a chain that ends in `nil` is a proper
list, one that ends in an ellipsis is a pattern for repeats of its last element, and one that ends
in anything else is a dotted list. A chain and its items with its tail are the same thing.
-/
namespace SExpr

/-- An expression in the notation of symbols and lists. -/
inductive Datum
  | number (value : Binary64)
  | boolean (value : Bool)
  | symbol (name : Text)
  | nil
  | cons (car cdr : Datum)
  | ellipsis (count : Int)
  deriving DecidableEq

namespace Datum

/-- The chain of the items that ends in `tail`. -/
def ofItems (items : List Datum) (tail : Datum := nil) : Datum :=
  items.foldr cons tail

def items : Datum → List Datum
  | cons car cdr => car :: cdr.items
  | _ => []

/-- The end of a chain, which is no pair. A datum that is no pair is its own tail. -/
def tail : Datum → Datum
  | cons _ cdr => cdr.tail
  | d => d

theorem sizeOf_lt_of_mem_items {d item : Datum} (h : item ∈ d.items) : sizeOf item < sizeOf d := by
  induction d with
  | cons car cdr _ ih =>
    rcases List.mem_cons.mp h with rfl | h
    · rw [cons.sizeOf_spec]
      omega
    · have := ih h
      rw [cons.sizeOf_spec]
      omega
  | _ => cases h

theorem sizeOf_tail_le (d : Datum) : sizeOf d.tail ≤ sizeOf d := by
  induction d with
  | cons car cdr _ ih =>
    rw [tail, cons.sizeOf_spec]
    omega
  | _ => exact Nat.le_refl _

def isProper (d : Datum) : Bool :=
  d.tail = nil

/-- Builds a chain from its end: the last item is put in front of the tail first. -/
def build (items : List Datum) (tail : Datum := nil) : Datum :=
  items.reverse.foldl (fun chain item => cons item chain) tail

/-- Goes along a chain up to its tail, and puts each item behind those that were passed before. -/
def walk (d : Datum) (passed : List Datum := []) : List Datum × Datum :=
  match d with
  | cons car cdr => cdr.walk (passed ++ [car])
  | d => (passed, d)

end Datum

end SExpr
