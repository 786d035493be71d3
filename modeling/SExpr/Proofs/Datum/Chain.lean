import SExpr.Datum.Basic

/-!
# Chains and their parts

Every datum is the chain of its items and its tail, and no other items in front of a tail that is no
pair make the same datum. Items that are put in front of a chain are spliced into it: its own items
come behind them, and its tail stays what it is. The loop that builds a chain from its end and the
one that goes along it from its front do the same, one pair at a time.
-/
namespace SExpr.Datum

variable {d t : Datum} {items : List Datum}

/-! ## Putting together and taking apart -/

theorem ofItems_append (items more : List Datum) (t : Datum) :
    ofItems (items ++ more) t = ofItems items (ofItems more t) :=
  List.foldr_append

theorem ofItems_concat (items : List Datum) (d t : Datum) :
    ofItems (items ++ [d]) t = ofItems items (cons d t) :=
  ofItems_append items [d] t

theorem ofItems_items_tail (d : Datum) : ofItems d.items d.tail = d := by
  induction d with
  | cons car cdr _ ih => exact congrArg (cons car) ih
  | _ => rfl

theorem tail_ne_cons (d car cdr : Datum) : d.tail ≠ cons car cdr := by
  induction d with
  | cons _ _ _ ih => exact ih
  | _ => exact nofun

theorem items_ofItems (items : List Datum) (t : Datum) :
    (ofItems items t).items = items ++ t.items := by
  induction items with
  | nil => rfl
  | cons item items ih => exact congrArg (List.cons item) ih

theorem tail_ofItems (items : List Datum) (t : Datum) : (ofItems items t).tail = t.tail := by
  induction items with
  | nil => rfl
  | cons item items ih => exact ih

theorem isProper_ofItems (items : List Datum) (t : Datum) :
    (ofItems items t).isProper = t.isProper := by
  rw [isProper, isProper, tail_ofItems]

/-! ## One way only -/

theorem items_tail_of_ne_cons (h : ∀ car cdr, t ≠ cons car cdr) : t.items = [] ∧ t.tail = t := by
  cases t with
  | cons car cdr => exact absurd rfl (h car cdr)
  | _ => exact ⟨rfl, rfl⟩

/-- A tail that is no pair tells where the items in front of it end. -/
theorem ofItems_eq_iff : (ofItems items t = d ∧ ∀ car cdr, t ≠ cons car cdr) ↔
    items = d.items ∧ t = d.tail := by
  constructor
  · rintro ⟨rfl, hatom⟩
    obtain ⟨hitems, htail⟩ := items_tail_of_ne_cons hatom
    rw [items_ofItems, tail_ofItems, hitems, htail, List.append_nil]
    exact ⟨rfl, rfl⟩
  · rintro ⟨rfl, rfl⟩
    exact ⟨d.ofItems_items_tail, d.tail_ne_cons⟩

-- a tail that is a pair does not
example : ofItems [nil] = ofItems [] (cons nil nil) := rfl

/-! ## One pair at a time -/

theorem build_eq_ofItems (items : List Datum) (t : Datum) : build items t = ofItems items t :=
  List.foldl_reverse

/-- The items on the way come behind those that were passed before, and the tail is left over. -/
theorem walk_eq (d : Datum) (passed : List Datum) :
    d.walk passed = (passed ++ d.items, d.tail) := by
  induction d generalizing passed with
  | cons car cdr _ ih =>
    rw [walk, ih, List.append_assoc]
    rfl
  | _ => simp [walk, items, tail]

/-- A datum is the chain of its items and its tail, which is no pair, and it is no other chain with
such a tail. A chain has the items that it was made of and then those of its tail, it ends where
its tail ends, more items in front of it are spliced into it, and it is a proper list just if its
tail is one. All this is so for chains that are built from their ends and gone along from their
fronts, one pair at a time. -/
theorem ofItems_inverse :
    (∀ d : Datum, ofItems d.items d.tail = d ∧ (∀ car cdr, d.tail ≠ cons car cdr) ∧
      ∀ items t, (ofItems items t = d ∧ ∀ car cdr, t ≠ cons car cdr) ↔
        items = d.items ∧ t = d.tail) ∧
      (∀ (items : List Datum) (t : Datum), (ofItems items t).items = items ++ t.items ∧
        (ofItems items t).tail = t.tail ∧
        (∀ more, ofItems items (ofItems more t) = ofItems (items ++ more) t) ∧
        (ofItems items t).isProper = t.isProper) ∧
      (∀ (items : List Datum) (t : Datum), build items t = ofItems items t) ∧
      ∀ d : Datum, d.walk = (d.items, d.tail) := by
  refine ⟨fun d => ⟨d.ofItems_items_tail, d.tail_ne_cons, fun _ _ => ofItems_eq_iff⟩,
    fun items t => ⟨items_ofItems items t, tail_ofItems items t, fun more => ?_,
      isProper_ofItems items t⟩, build_eq_ofItems, fun d => d.walk_eq []⟩
  exact (ofItems_append items more t).symm

end SExpr.Datum
