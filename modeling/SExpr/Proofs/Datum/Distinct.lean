import Mathlib.Data.Set.Card
import SExpr.Proofs.Datum.Alike

/-!
# Hashes and sets of data

Alike data have the same hash, whatever the hashes of leaves are and however they are combined. So a
set of data has one member for each class of alike data, in whatever order they are added.
-/
namespace SExpr.Datum

/-- Numbers of one value have one hash. Other leaves are alike only if they are the same. -/
def Hashing.Respects (h : Hashing) : Prop :=
  ∀ x y : Binary64, x.SameNumber y → h.number x = h.number y

def classes (data : List Datum) : Set (Set Datum) :=
  {c | ∃ d ∈ data, c = {d' | d.Alike d'}}

variable {h : Hashing} {d d' car cdr : Datum} {data members : List Datum}

/-! ## Hashes -/

theorem hash_cons (h : Hashing) (car cdr : Datum) : (cons car cdr).hash h =
    h.chain ((cons car cdr).items.map (hash h)) ((cons car cdr).tail.hash h) := by
  rw [hash, List.attach_map_val, tail]

/-- Alike data have the same hash, and so have their items and their tails. -/
theorem hash_eq_of_alike (hrespects : h.Respects) (halike : d.Alike d') :
    d.hash h = d'.hash h ∧ d.items.map (hash h) = d'.items.map (hash h) ∧
      d.tail.hash h = d'.tail.hash h := by
  induction halike with
  | @number x y hxy =>
    have hhash : (number x).hash h = (number y).hash h := by
      rw [hash, hash, hrespects x y hxy]
    exact ⟨hhash, rfl, hhash⟩
  | @cons a b as bs _ _ iha ihas =>
    obtain ⟨ha, -, -⟩ := iha
    obtain ⟨-, hitems, htail⟩ := ihas
    have hitems : (cons a as).items.map (hash h) = (cons b bs).items.map (hash h) :=
      congrArg₂ List.cons ha hitems
    have htail : (cons a as).tail.hash h = (cons b bs).tail.hash h := htail
    exact ⟨by rw [hash_cons, hash_cons, hitems, htail], hitems, htail⟩
  | _ => exact ⟨rfl, rfl, rfl⟩

theorem respects_defaultHashing : defaultHashing.Respects := by
  intro x y hxy
  cases hxy with
  | @finite x y h =>
    by_cases hzero : x.significand = 0
    · have hzero' := Binary64.Finite.significand_eq_zero_of_value_eq h hzero
      have hleast {z : Binary64.Finite} (hz : z.significand = 0) : z.exponent = -1074 := by
        obtain ⟨-, -, -, hfull | hleast⟩ := z.canonical
        · rw [hz] at hfull
          exact absurd hfull (by decide)
        · exact hleast
      simp [defaultHashing, hashNumber, hzero, hzero', hleast hzero, hleast hzero']
    · rw [Binary64.Finite.eq_of_value_eq h hzero]
  | infinite negative => rfl

/-! ## Sets -/

theorem same_member_iff (hrespects : h.Respects) (hd : d.WithoutNaN) :
    (d.hash h = d'.hash h && d.equal d') = true ↔ d.Alike d' := by
  rw [Bool.and_eq_true_iff, decide_eq_true_eq, equal_iff hd (.none d d'), and_iff_right_iff_imp]
  exact fun halike => (hash_eq_of_alike hrespects halike).1

/-- The members of a set stand for data: each of the data is alike to exactly one of them. -/
structure Represents (members data : List Datum) : Prop where
  subset : members ⊆ data
  exists_alike : ∀ d ∈ data, ∃ member ∈ members, member.Alike d
  pairwise : members.Pairwise fun d d' => ¬ d.Alike d'

theorem Represents.insertInto (hrespects : h.Respects) (hrep : Represents members data)
    (hdata : ∀ d ∈ data, d.WithoutNaN) (hd : d.WithoutNaN) :
    Represents (insertInto h members d) (data ++ [d]) := by
  have hany : (members.any fun member => member.hash h = d.hash h && member.equal d) = true ↔
      ∃ member ∈ members, member.Alike d := by
    rw [List.any_eq_true]
    refine exists_congr fun member => and_congr_right fun hmem => ?_
    exact same_member_iff hrespects (hdata member (hrep.subset hmem))
  unfold Datum.insertInto
  split_ifs with hold
  · refine ⟨List.subset_append_of_subset_left _ hrep.subset, ?_, hrep.pairwise⟩
    exact List.forall_mem_append.mpr
      ⟨hrep.exists_alike, List.forall_mem_singleton.mpr (hany.mp hold)⟩
  · have hnew : ∀ member ∈ members, ¬ member.Alike d := fun member hmem halike =>
      hold (hany.mpr ⟨member, hmem, halike⟩)
    refine ⟨?_, List.forall_mem_append.mpr ⟨fun d' hd' => ?_, ?_⟩, ?_⟩
    · exact List.append_subset.mpr ⟨List.subset_append_of_subset_left _ hrep.subset,
        List.subset_append_right _ _⟩
    · obtain ⟨member, hmem, halike⟩ := hrep.exists_alike d' hd'
      exact ⟨member, List.mem_append_left _ hmem, halike⟩
    · exact List.forall_mem_singleton.mpr ⟨d, by simp, .refl hd⟩
    · exact List.pairwise_append.mpr ⟨hrep.pairwise, List.pairwise_singleton _ _,
        fun member hmem => List.forall_mem_singleton.mpr (hnew member hmem)⟩

theorem represents_foldl (hrespects : h.Respects) (hrep : Represents members data)
    {more : List Datum} (hdata : ∀ d ∈ data ++ more, d.WithoutNaN) :
    Represents (more.foldl (Datum.insertInto h) members) (data ++ more) := by
  induction more generalizing members data with
  | nil =>
    rw [List.append_nil]
    exact hrep
  | cons d more ih =>
    have hdata' := List.forall_mem_append.mp hdata
    have hnext := hrep.insertInto hrespects hdata'.1 (hdata'.2 d List.mem_cons_self)
    rw [List.append_cons] at hdata ⊢
    exact ih hnext hdata

theorem Represents.length_eq (hrep : Represents members data)
    (hdata : ∀ d ∈ data, d.WithoutNaN) : members.length = (classes data).ncard := by
  have hself {d : Datum} (hd : d ∈ members) : d.Alike d := .refl (hdata d (hrep.subset hd))
  have hnodup : members.Nodup :=
    hrep.pairwise.imp_of_mem fun hd _ hdiffer heq => hdiffer (heq ▸ hself hd)
  have hsymm : Std.Symm fun d d' : Datum => ¬ d.Alike d' := ⟨fun _ _ hdiffer h => hdiffer h.symm⟩
  have hinjective : Set.InjOn (fun d : Datum => {d' | d.Alike d'}) members.toFinset := by
    intro d hd d' hd' hclass
    rw [Finset.mem_coe, List.mem_toFinset] at hd hd'
    have halike : d' ∈ {e | d.Alike e} := (Set.ext_iff.mp hclass d').mpr (hself hd')
    by_contra hne
    exact hrep.pairwise.forall hd hd' hne halike
  have hclasses : classes data = (fun d : Datum => {d' | d.Alike d'}) '' members.toFinset := by
    ext c
    simp only [Set.mem_image, Finset.mem_coe, List.mem_toFinset]
    constructor
    · rintro ⟨d, hd, rfl⟩
      obtain ⟨member, hmem, halike⟩ := hrep.exists_alike d hd
      exact ⟨member, hmem, Set.ext fun _ => ⟨halike.symm.trans, halike.trans⟩⟩
    · rintro ⟨member, hmem, rfl⟩
      exact ⟨member, hrep.subset hmem, rfl⟩
  rw [hclasses, hinjective.ncard_image, Set.ncard_coe_finset,
    List.toFinset_card_of_nodup hnodup]

/-- The set of data has as many members as there are classes of them. -/
theorem length_distinct (hrespects : h.Respects) (hdata : ∀ d ∈ data, d.WithoutNaN) :
    (distinct h data).length = (classes data).ncard := by
  have hempty : Represents [] [] := ⟨List.Subset.refl _, nofun, .nil⟩
  have hrep : Represents (distinct h data) data :=
    represents_foldl hrespects hempty (hdata : ∀ d ∈ [] ++ data, d.WithoutNaN)
  exact hrep.length_eq hdata

theorem classes_congr {data' : List Datum} (hsame : ∀ d, d ∈ data ↔ d ∈ data') :
    classes data = classes data' :=
  Set.ext fun _ => exists_congr fun d => and_congr_left fun _ => hsame d

/-- Data without NaN that are compared in step are found equal just if they have the same shape and
the same leaves, whatever objects they share. So equality is an equivalence. It never relates
different variants, and it relates pairs just if it relates their parts. Equal data have equal
hashes if equal numbers have, and the set of some data has one member for each class of them, in
whatever order they are added. -/
theorem equal_structural (hrespects : h.Respects) :
    (∀ d d' : Datum, d.WithoutNaN → d'.WithoutNaN → ∀ shared, SharedIn shared d d' →
      d.equal d' shared = d.sameValue d' ∧ (d.equal d' shared = true ↔ d.Alike d') ∧
        d.equal d' shared = d'.equal d ∧
        (d.equal d' shared = true → d.variant = d'.variant ∧ d.hash h = d'.hash h)) ∧
      (∀ d : Datum, d.WithoutNaN → d.equal d = true) ∧
      (∀ d d' d'' : Datum, d.WithoutNaN → d'.WithoutNaN → d''.WithoutNaN →
        d.equal d' = true → d'.equal d'' = true → d.equal d'' = true) ∧
      (∀ a as b bs : Datum, (cons a as).WithoutNaN → (cons b bs).WithoutNaN →
        ((cons a as).equal (cons b bs) = true ↔ a.equal b = true ∧ as.equal bs = true)) ∧
      ∀ data data' : List Datum, data'.Perm data → (∀ d ∈ data, d.WithoutNaN) →
        (distinct h data').length = (classes data).ncard := by
  have hiff {d d' : Datum} (hd : d.WithoutNaN) : d.equal d' = true ↔ d.Alike d' :=
    equal_iff hd (.none d d')
  refine ⟨fun d d' hd hd' shared hshared => ⟨?_, equal_iff hd hshared, ?_, fun hequal => ?_⟩,
    fun d hd => (hiff hd).mpr (.refl hd), fun d d' d'' hd hd' _ h h' => ?_,
    fun a as b bs hd _ => ?_, fun data data' hperm hdata => ?_⟩
  · rw [Bool.eq_iff_iff, equal_iff hd hshared, sameValue_iff]
  · rw [Bool.eq_iff_iff, equal_iff hd hshared, hiff hd']
    exact ⟨Alike.symm, Alike.symm⟩
  · have halike := (equal_iff hd hshared).mp hequal
    exact ⟨halike.variant_eq, (hash_eq_of_alike hrespects halike).1⟩
  · exact (hiff hd).mpr (((hiff hd).mp h).trans ((hiff hd').mp h'))
  · rw [hiff hd, hiff hd.1, hiff hd.2, alike_cons_iff]
  · rw [← classes_congr fun d => hperm.mem_iff]
    exact length_distinct hrespects fun d hd => hdata d (hperm.mem_iff.mp hd)

/-- Two lists that begin with different zeros and share what follows. -/
theorem equal_structural_zeros :
    let list (negative : Bool) := cons (number (.finite (.zero negative))) (cons nil nil)
    let shared (place : List Side) : Bool := place = [.cdr]
    defaultHashing.Respects ∧ (∀ negative, (list negative).WithoutNaN) ∧
      SharedIn shared (list false) (list true) ∧ (list false).equal (list true) shared = true ∧
      (list false).hash defaultHashing = (list true).hash defaultHashing ∧
      (distinct defaultHashing [list true, list false]).length =
        (classes [list false, list true]).ncard := by
  intro list shared
  have hlist (negative : Bool) : (list negative).WithoutNaN := ⟨nofun, trivial, trivial⟩
  have hshared : SharedIn shared (list false) (list true) := by
    intro place hplace
    rw [of_decide_eq_true hplace]
    rfl
  have hequal : (list false).equal (list true) shared = true := by decide
  obtain ⟨hpairs, -, -, -, hsets⟩ := equal_structural respects_defaultHashing
  obtain ⟨-, -, -, hsame⟩ := hpairs _ _ (hlist false) (hlist true) shared hshared
  refine ⟨respects_defaultHashing, hlist, hshared, hequal, (hsame hequal).2, ?_⟩
  exact hsets _ _ (.swap _ _ []) (by simp [hlist])

end SExpr.Datum
