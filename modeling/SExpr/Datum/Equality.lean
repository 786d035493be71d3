import SExpr.Datum.Basic

/-!
# Equality by value

Two data are equal if they have the same shape and equal leaves, where numbers are compared by
value. They are compared by following both chains in step. A hash of a datum combines hashes of its
leaves, and sets of data are built by comparing hashes before values.
-/
namespace SExpr.Datum

/-- Equality of shape and of leaves. The two zeros are equal. -/
def sameValue : Datum → Datum → Bool
  | number x, number y => x.sameValue y
  | boolean a, boolean b => a = b
  | symbol s, symbol t => s = t
  | nil, nil => true
  | cons a as, cons b bs => a.sameValue b && as.sameValue bs
  | ellipsis m, ellipsis n => m = n
  | _, _ => false

def sameValues : List Datum → List Datum → Bool
  | [], [] => true
  | a :: as, b :: bs => a.sameValue b && sameValues as bs
  | _, _ => false

def sameLeaf : Datum → Datum → Bool
  | number x, number y => x.sameValue y
  | boolean a, boolean b => a = b
  | symbol s, symbol t => s = t
  | nil, nil => true
  | ellipsis m, ellipsis n => m = n
  | _, _ => false

/-- A way into a pair. -/
inductive Side
  | car
  | cdr
  deriving DecidableEq, Repr

/-- Compares two chains in step, until an item differs or one of them ends, and then what is left of
them. `shared` tells at which places the two data are one object, which is not compared with
itself. -/
def equal (d d' : Datum) (shared : List Side → Bool := fun _ => false) : Bool :=
  match d, d' with
  | cons a as, cons b bs =>
    if shared [] then true
    else if !a.equal b fun place => shared (.car :: place) then false
    else as.equal bs fun place => shared (.cdr :: place)
  | d, d' => d.sameLeaf d'

/-- Hashes of the leaves, and how the hashes of the items of a chain and of its tail are
combined. -/
structure Hashing where
  number : Binary64 → UInt64
  boolean : Bool → UInt64
  symbol : Text → UInt64
  nil : UInt64
  ellipsis : Int → UInt64
  chain : List UInt64 → UInt64 → UInt64

/-- The hash of a datum for given hashes of leaves. A chain is hashed as its items and its tail. -/
def hash (h : Hashing) : Datum → UInt64
  | number x => h.number x
  | boolean b => h.boolean b
  | symbol s => h.symbol s
  | nil => h.nil
  | ellipsis n => h.ellipsis n
  | cons car cdr =>
    h.chain ((cons car cdr).items.attach.map fun item => item.1.hash h) (cdr.tail.hash h)
termination_by d => sizeOf d
decreasing_by
  · exact sizeOf_lt_of_mem_items item.2
  · have hle := cdr.sizeOf_tail_le
    rw [cons.sizeOf_spec]
    omega

/-- A hash of numbers that ignores the sign of zero. -/
def hashNumber : Binary64 → UInt64
  | .finite x => mixHash (Hashable.hash x.significand) (Hashable.hash x.exponent)
  | .infinite negative => Hashable.hash negative
  | .nan => 0

def defaultHashing : Hashing where
  number := hashNumber
  boolean := Hashable.hash
  symbol name := Hashable.hash (String.ofList name)
  nil := 1
  ellipsis := Hashable.hash
  chain items tail := items.foldr mixHash tail

/-- The members of a set with a datum added, unless an equal one is among them. -/
def insertInto (h : Hashing) (members : List Datum) (d : Datum) : List Datum :=
  if members.any fun member => member.hash h = d.hash h && member.equal d then members
  else members ++ [d]

def distinct (h : Hashing) (data : List Datum) : List Datum :=
  data.foldl (insertInto h) []

end SExpr.Datum
