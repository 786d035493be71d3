import SExpr.Text.Basic

/-!
# Unified newlines

Unifying newlines changes carriage returns and the line feeds directly behind them and nothing else,
so it can be done piece by piece wherever no such pair is torn apart.
-/
namespace SExpr.Text

variable {c : Char} {s t x : Text}

/-- Every carriage return is directly followed by a line feed. -/
def ReturnsPaired (t : Text) : Prop :=
  ∀ i < t.length, t[i]? = some '\r' → t[i + 1]? = some '\n'

instance (t : Text) : Decidable t.ReturnsPaired :=
  inferInstanceAs (Decidable (∀ i < t.length, _ → _))

/-- A text that holds no newline of any convention. -/
def IsLine (t : Text) : Prop :=
  ∀ c ∈ t, c ≠ '\r' ∧ c ≠ '\n'

instance (t : Text) : Decidable t.IsLine :=
  List.decidableBAll _ t

@[simp] theorem isLine_cons : IsLine (c :: t) ↔ (c ≠ '\r' ∧ c ≠ '\n') ∧ t.IsLine :=
  List.forall_mem_cons

@[simp] theorem isLine_append : IsLine (s ++ t) ↔ s.IsLine ∧ t.IsLine :=
  List.forall_mem_append

theorem isLine_flatMap {texts : List Text} (hc : c ≠ '\r' ∧ c ≠ '\n')
    (h : ∀ t ∈ texts, t.IsLine) : IsLine (texts.flatMap (c :: ·)) := by
  intro d hd
  obtain ⟨t, ht, hmem⟩ := List.mem_flatMap.mp hd
  exact isLine_cons.mpr ⟨hc, h t ht⟩ d hmem

theorem ReturnsPaired.right (h : (s ++ t).ReturnsPaired) : t.ReturnsPaired := by
  intro i hi hreturn
  have hlt : s.length + i < (s ++ t).length := by
    rw [List.length_append]
    omega
  have hfeed := h (s.length + i) hlt
  rw [Nat.add_assoc, List.getElem?_append_right (by omega), List.getElem?_append_right (by omega),
    Nat.add_sub_cancel_left, Nat.add_sub_cancel_left] at hfeed
  exact hfeed hreturn

theorem ReturnsPaired.left (h : (s ++ t).ReturnsPaired) (ht : t.head? ≠ some '\n') :
    s.ReturnsPaired := by
  intro i hi hreturn
  have hlt : i < (s ++ t).length := by
    rw [List.length_append]
    omega
  have hfeed := h i hlt
  rw [List.getElem?_append_left hi] at hfeed
  by_cases hlast : i + 1 < s.length
  · rw [List.getElem?_append_left hlast] at hfeed
    exact hfeed hreturn
  · have hzero : i + 1 - s.length = 0 := by omega
    rw [List.getElem?_append_right (by omega), hzero, ← List.head?_eq_getElem?] at hfeed
    exact absurd (hfeed hreturn) ht

theorem ReturnsPaired.head? (h : ReturnsPaired ('\r' :: t)) : t.head? = some '\n' := by
  rw [List.head?_eq_getElem?]
  exact h 0 (Nat.succ_pos _) rfl

theorem unifyNewlines_cons (hc : c ≠ '\r') (t : Text) :
    unifyNewlines (c :: t) = c :: unifyNewlines t := by
  rw [unifyNewlines.eq_def]
  split
  · contradiction
  · rename_i heq
    exact absurd (List.cons.inj heq).1 hc
  · rename_i heq
    obtain ⟨rfl, rfl⟩ := List.cons.inj heq
    rw [if_neg hc]

theorem unifyNewlines_return (h : t.head? ≠ some '\n') :
    unifyNewlines ('\r' :: t) = '\n' :: unifyNewlines t := by
  rw [unifyNewlines.eq_def]
  split
  · contradiction
  · rename_i heq
    obtain ⟨-, rfl⟩ := List.cons.inj heq
    exact absurd rfl h
  · rename_i heq
    obtain ⟨rfl, rfl⟩ := List.cons.inj heq
    rfl

/-- Newlines are unified from the front: a pair, a lone carriage return, or any other character. -/
theorem newline_induction {P : Text → Prop} (hnil : P [])
    (hpair : ∀ t, P t → P ('\r' :: '\n' :: t))
    (hreturn : ∀ t, t.head? ≠ some '\n' → P t → P ('\r' :: t))
    (hother : ∀ c t, c ≠ '\r' → P t → P (c :: t)) (t : Text) : P t := by
  fun_induction unifyNewlines t with
  | case1 => exact hnil
  | case2 t ih => exact hpair t ih
  | case3 c t hne ih =>
    by_cases hc : c = '\r'
    · subst hc
      apply hreturn t _ ih
      intro hhead
      obtain ⟨rest, rfl⟩ := List.head?_eq_some_iff.mp hhead
      exact hne rest rfl rfl
    · exact hother c t hc ih

theorem unifyNewlines_append (h : s.getLast? = some '\r' → t.head? ≠ some '\n') :
    unifyNewlines (s ++ t) = unifyNewlines s ++ unifyNewlines t := by
  have hlast : ∀ {c : Char} {s : Text}, s.getLast? = some '\r' →
      (c :: s).getLast? = some '\r' := by
    intro c s hs
    rw [List.getLast?_cons, hs]
    rfl
  induction s using newline_induction with
  | hnil => rfl
  | hpair s ih =>
    have hrest := ih fun hs => h (hlast (hlast hs))
    rw [List.cons_append, List.cons_append, unifyNewlines, unifyNewlines, hrest, List.cons_append]
  | hreturn s hs ih =>
    have hhead : (s ++ t).head? ≠ some '\n' := by
      cases s with
      | nil => exact h rfl
      | cons c s => exact hs
    rw [List.cons_append, unifyNewlines_return hhead, unifyNewlines_return hs,
      ih fun hs => h (hlast hs), List.cons_append]
  | hother c s hc ih =>
    rw [List.cons_append, unifyNewlines_cons hc, unifyNewlines_cons hc,
      ih fun hs => h (hlast hs), List.cons_append]

theorem unifyNewlines_of_forall_ne (h : ∀ c ∈ t, c ≠ '\r') : unifyNewlines t = t := by
  induction t with
  | nil => rfl
  | cons c t ih =>
    obtain ⟨hc, ht⟩ := List.forall_mem_cons.mp h
    rw [unifyNewlines_cons hc, ih ht]

theorem unifyNewlines_ne_nil (h : t ≠ []) : unifyNewlines t ≠ [] := by
  cases t using newline_induction with
  | hnil => contradiction
  | hpair t => simp [unifyNewlines]
  | hreturn t ht => simp [unifyNewlines_return ht]
  | hother c t hc => simp [unifyNewlines_cons hc]

theorem mem_of_mem_unifyNewlines (hc : c ∈ unifyNewlines t) : c = '\n' ∨ c ∈ t := by
  induction t using newline_induction with
  | hnil => exact absurd hc List.not_mem_nil
  | hpair t ih =>
    rw [unifyNewlines] at hc
    rcases List.mem_cons.mp hc with rfl | hc
    · exact Or.inl rfl
    · exact (ih hc).imp_right fun hmem => List.mem_cons_of_mem _ (List.mem_cons_of_mem _ hmem)
  | hreturn t ht ih =>
    rw [unifyNewlines_return ht] at hc
    rcases List.mem_cons.mp hc with rfl | hc
    · exact Or.inl rfl
    · exact (ih hc).imp_right (List.mem_cons_of_mem _)
  | hother c' t hc' ih =>
    rw [unifyNewlines_cons hc'] at hc
    rcases List.mem_cons.mp hc with rfl | hc
    · exact Or.inr List.mem_cons_self
    · exact (ih hc).imp_right (List.mem_cons_of_mem _)

/-- What stands before the first line feed stands at the front of the text itself. -/
theorem prefix_of_prefix_unifyNewlines (h : x <+: unifyNewlines t) (hx : '\n' ∉ x) : x <+: t := by
  have hnewline : ∀ {x t : Text}, x <+: '\n' :: t → '\n' ∉ x → x = [] := by
    intro x t h hx
    rcases List.prefix_cons_iff.mp h with rfl | ⟨x, rfl, -⟩
    · rfl
    · exact absurd List.mem_cons_self hx
  induction t using newline_induction generalizing x with
  | hnil => exact h
  | hpair t ih =>
    rw [unifyNewlines] at h
    rw [hnewline h hx]
    exact List.nil_prefix
  | hreturn t ht ih =>
    rw [unifyNewlines_return ht] at h
    rw [hnewline h hx]
    exact List.nil_prefix
  | hother c t hc ih =>
    rw [unifyNewlines_cons hc] at h
    rcases List.prefix_cons_iff.mp h with rfl | ⟨x, rfl, hmore⟩
    · exact List.nil_prefix
    · rw [List.prefix_cons_inj]
      exact ih hmore fun hmem => hx (List.mem_cons_of_mem _ hmem)

end SExpr.Text
