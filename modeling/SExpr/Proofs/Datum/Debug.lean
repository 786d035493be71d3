import SExpr.Datum.Source
import SExpr.Proofs.Number.Debug
import SExpr.Proofs.Text.Quoted

/-!
# Debug texts of data

The debug text of a datum tells the datum and where the text ends, so that no two data have the same
one. Writing a chain from its openings, its tail and its closing parentheses gives the same text as
writing each pair around its parts.
-/
namespace SExpr.Datum

variable {d d' : Datum} {rest rest' : Text}

/-! ## Chains -/

/-- The openings of a chain, its tail and the closing parentheses are the nested text. -/
theorem openings_append (d : Datum) :
    (d.items.map fun item => applied "Cons" (item.debug ++ [',', ' '])).flatten ++ d.tail.debug ++
      List.replicate d.items.length ')' = d.debug := by
  induction d with
  | cons car cdr _ ih =>
    rw [debug_cons, ← ih]
    simp [items, tail, applied, List.replicate_succ']
  | _ => simp [items, tail]

theorem chainDebug_eq (d : Datum) : d.chainDebug = d.debug := by
  fun_induction chainDebug d with
  | case1 car cdr items ihitems ihtail =>
    have hitems : items.attach.map (fun item => applied "Cons" (item.1.chainDebug ++ [',', ' '])) =
        items.map fun item => applied "Cons" (item.debug ++ [',', ' ']) := by
      rw [← List.attach_map_val (l := items)]
      exact List.map_congr_left fun item _ => by rw [ihitems item]
    rw [hitems, ihtail]
    exact openings_append (cons car cdr)
  | case2 => rfl

/-! ## Texts tell data -/

theorem append_paren_inj {s t : Text} (hs : ')' ∉ s) (ht : ')' ∉ t)
    (h : s ++ ')' :: rest = t ++ ')' :: rest') : s = t ∧ rest = rest' := by
  induction s generalizing t with
  | nil =>
    cases t with
    | nil => exact ⟨rfl, (List.cons.inj h).2⟩
    | cons c t =>
      obtain ⟨rfl, -⟩ := List.cons.inj h
      exact absurd List.mem_cons_self ht
  | cons c s ih =>
    cases t with
    | nil =>
      obtain ⟨rfl, -⟩ := List.cons.inj h
      exact absurd List.mem_cons_self hs
    | cons c' t =>
      obtain ⟨rfl, hmore⟩ := List.cons.inj h
      obtain ⟨rfl, hrest⟩ := ih (fun hmem => hs (List.mem_cons_of_mem _ hmem))
        (fun hmem => ht (List.mem_cons_of_mem _ hmem)) hmore
      exact ⟨rfl, hrest⟩

theorem booleanDebug_injective {b b' : Bool} (h : booleanDebug b = booleanDebug b') : b = b' := by
  cases b <;> cases b' <;> simp [booleanDebug] at h ⊢

theorem paren_not_mem_booleanDebug (b : Bool) : ')' ∉ booleanDebug b := by
  cases b <;> decide

theorem applied_inj {constructor : String} {t t' : Text}
    (h : applied constructor t = applied constructor t') : t = t' :=
  (List.cons.inj (List.append_cancel_left h)).2

/-- The text of a datum tells the datum and what follows it. Its constructor is told by its first
two characters, and its parts one after the other. -/
theorem debugBefore_inj (h : d.debugBefore rest = d'.debugBefore rest') :
    d = d' ∧ rest = rest' := by
  induction d generalizing d' rest rest' with
  | number x =>
    cases d' with
    | number y =>
      obtain ⟨htext, hrest⟩ :=
        append_paren_inj x.paren_not_mem_debug y.paren_not_mem_debug (applied_inj h)
      exact ⟨congrArg number (Binary64.debug_injective htext), hrest⟩
    | _ => simp [debugBefore, applied] at h
  | boolean b =>
    cases d' with
    | boolean b' =>
      obtain ⟨htext, hrest⟩ := append_paren_inj (paren_not_mem_booleanDebug b)
        (paren_not_mem_booleanDebug b') (applied_inj h)
      exact ⟨congrArg boolean (booleanDebug_injective htext), hrest⟩
    | _ => simp [debugBefore, applied] at h
  | symbol name =>
    cases d' with
    | symbol name' =>
      obtain ⟨hname, hrest⟩ := Text.quoted_append_inj (applied_inj h)
      exact ⟨congrArg symbol hname, (List.cons.inj hrest).2⟩
    | _ => simp [debugBefore, applied] at h
  | nil =>
    cases d' with
    | nil =>
      have h : "Nil".toList ++ rest = "Nil".toList ++ rest' := h
      exact ⟨rfl, List.append_cancel_left h⟩
    | _ => simp [debugBefore, applied] at h
  | cons car cdr ihcar ihcdr =>
    cases d' with
    | cons car' cdr' =>
      obtain ⟨hcar, hmore⟩ := ihcar (applied_inj h)
      have hmore : [',', ' '] ++ cdr.debugBefore (')' :: rest) =
        [',', ' '] ++ cdr'.debugBefore (')' :: rest') := hmore
      obtain ⟨hcdr, hrest⟩ := ihcdr (List.append_cancel_left hmore)
      exact ⟨congrArg₂ cons hcar hcdr, (List.cons.inj hrest).2⟩
    | _ => simp [debugBefore, applied] at h
  | ellipsis n =>
    cases d' with
    | ellipsis n' =>
      obtain ⟨htext, hrest⟩ :=
        append_paren_inj (Text.paren_not_mem_ofInt n) (Text.paren_not_mem_ofInt n') (applied_inj h)
      exact ⟨congrArg ellipsis (Text.ofInt_injective htext), hrest⟩
    | _ => simp [debugBefore, applied] at h

/-- No two data have the same debug text, and the text of every pair, written as a chain, is that of
its two parts between the parentheses of one constructor. -/
theorem chainDebug_identifies (d d' : Datum) : (d.chainDebug = d'.chainDebug ↔ d = d') ∧
    ∀ car cdr, (cons car cdr).chainDebug =
      "Cons(".toList ++ car.chainDebug ++ ", ".toList ++ cdr.chainDebug ++ ")".toList := by
  refine ⟨⟨fun h => ?_, congrArg chainDebug⟩, fun car cdr => ?_⟩
  · rw [chainDebug_eq, chainDebug_eq] at h
    exact (debugBefore_inj h).1
  · rw [chainDebug_eq, chainDebug_eq, chainDebug_eq, debug_cons]
    simp [applied]

end SExpr.Datum
