import SExpr.Reading.Form

/-!
# Forms are told by their lexemes

The grammar of forms is unambiguous: no form's lexemes begin those of another, since the first
lexeme of a form or of the end of a list tells which it is.
-/
namespace SExpr

variable {L L' : List (Kind × Text)}

def Kind.startsForm : Kind → Bool
  | .number | .boolean | .symbol | .abbreviation _ | .opener _ => true
  | _ => false

theorem Kind.isBlank_of_startsForm {k : Kind} (h : k.startsForm = true) : k.isBlank = false := by
  cases k <;> simp_all [startsForm, isBlank]

theorem Form.exists_cons (f : Form) : ∃ l L, f.lexemes = l :: L ∧ l.1.startsForm = true := by
  cases f <;> exact ⟨_, _, rfl, rfl⟩

theorem Form.lexemes_append_ne (f : Form) {l : Kind × Text} (hl : l.1.startsForm = false) :
    f.lexemes ++ L ≠ l :: L' := by
  obtain ⟨l', L₁, hf, hstarts⟩ := f.exists_cons
  rw [hf, List.cons_append]
  intro h
  obtain ⟨rfl, -⟩ := List.cons.inj h
  rw [hl] at hstarts
  cases hstarts

mutual

/-- The lexemes of a form tell the form and where it ends. -/
theorem Form.lexemes_append_inj (f f' : Form) (L L' : List (Kind × Text))
    (h : f.lexemes ++ L = f'.lexemes ++ L') : f = f' ∧ L = L' := by
  match f with
  | .number t =>
    cases f' with
    | number t' => simpa [Form.lexemes] using h
    | _ => simp [Form.lexemes] at h
  | .boolean t =>
    cases f' with
    | boolean t' => simpa [Form.lexemes] using h
    | _ => simp [Form.lexemes] at h
  | .symbol t =>
    cases f' with
    | symbol t' => simpa [Form.lexemes] using h
    | _ => simp [Form.lexemes] at h
  | .abbreviated a t f =>
    cases f' with
    | abbreviated a' t' f' =>
      obtain ⟨⟨rfl, rfl⟩, hf⟩ : (a = a' ∧ t = t') ∧ f.lexemes ++ L = f'.lexemes ++ L' := by
        simpa [Form.lexemes] using h
      obtain ⟨rfl, rfl⟩ := f.lexemes_append_inj f' L L' hf
      exact ⟨rfl, rfl⟩
    | _ => simp [Form.lexemes] at h
  | .empty b t c =>
    cases f' with
    | empty b' t' c' => simp_all [Form.lexemes]
    | list b' t' first rest =>
      simp only [Form.lexemes, List.cons_append, List.append_assoc, List.cons.injEq] at h
      exact absurd h.2.symm (first.lexemes_append_ne rfl)
    | _ => simp [Form.lexemes] at h
  | .list b t first rest =>
    cases f' with
    | empty b' t' c =>
      simp only [Form.lexemes, List.cons_append, List.append_assoc, List.cons.injEq] at h
      exact absurd h.2 (first.lexemes_append_ne rfl)
    | list b' t' first' rest' =>
      obtain ⟨⟨rfl, rfl⟩, hlist⟩ : (b = b' ∧ t = t') ∧
          first.lexemes ++ (rest.lexemes b ++ L) = first'.lexemes ++ (rest'.lexemes b' ++ L') := by
        simpa [Form.lexemes] using h
      obtain ⟨rfl, hrest⟩ := first.lexemes_append_inj first' _ _ hlist
      obtain ⟨rfl, rfl⟩ := rest.lexemes_append_inj rest' b L L' hrest
      exact ⟨rfl, rfl⟩
    | _ => simp [Form.lexemes] at h

theorem FormTail.lexemes_append_inj (r r' : FormTail) (b : Bracket) (L L' : List (Kind × Text))
    (h : r.lexemes b ++ L = r'.lexemes b ++ L') : r = r' ∧ L = L' := by
  match r with
  | .close c =>
    cases r' with
    | close c' => simpa [FormTail.lexemes] using h
    | item f' r' =>
      simp only [FormTail.lexemes, List.cons_append, List.append_assoc] at h
      exact absurd h.symm (f'.lexemes_append_ne rfl)
    | _ => simp [FormTail.lexemes] at h
  | .item f r =>
    cases r' with
    | item f' r' =>
      obtain ⟨rfl, hr⟩ := f.lexemes_append_inj f' (r.lexemes b ++ L) (r'.lexemes b ++ L')
        (by simpa [FormTail.lexemes] using h)
      obtain ⟨rfl, rfl⟩ := r.lexemes_append_inj r' b L L' hr
      exact ⟨rfl, rfl⟩
    | _ =>
      simp only [FormTail.lexemes, List.cons_append, List.append_assoc] at h
      exact absurd h (f.lexemes_append_ne rfl)
  | .dotted t f c =>
    cases r' with
    | item f' r' =>
      simp only [FormTail.lexemes, List.cons_append, List.append_assoc] at h
      exact absurd h.symm (f'.lexemes_append_ne rfl)
    | dotted t' f' c' =>
      obtain ⟨rfl, hf⟩ : t = t' ∧
          f.lexemes ++ ((.closer b, c) :: L) = f'.lexemes ++ ((.closer b, c') :: L') := by
        simpa [FormTail.lexemes] using h
      obtain ⟨rfl, hc⟩ := f.lexemes_append_inj f' _ _ hf
      obtain ⟨rfl, rfl⟩ : c = c' ∧ L = L' := by simpa using hc
      exact ⟨rfl, rfl⟩
    | _ => simp [FormTail.lexemes] at h
  | .repeated t c =>
    cases r' with
    | item f' r' =>
      simp only [FormTail.lexemes, List.cons_append, List.append_assoc] at h
      exact absurd h.symm (f'.lexemes_append_ne rfl)
    | repeated t' c' => simp_all [FormTail.lexemes]
    | _ => simp [FormTail.lexemes] at h

end

/-- Lexemes are those of at most one row of forms. -/
theorem flatMap_lexemes_inj {forms forms' : List Form}
    (h : forms.flatMap Form.lexemes = forms'.flatMap Form.lexemes) : forms = forms' := by
  induction forms generalizing forms' with
  | nil =>
    cases forms' with
    | nil => rfl
    | cons f' forms' =>
      obtain ⟨l, L, hf', -⟩ := f'.exists_cons
      simp [hf'] at h
  | cons f forms ih =>
    cases forms' with
    | nil =>
      obtain ⟨l, L, hf, -⟩ := f.exists_cons
      simp [hf] at h
    | cons f' forms' =>
      rw [List.flatMap_cons, List.flatMap_cons] at h
      obtain ⟨rfl, hforms⟩ := f.lexemes_append_inj f' _ _ h
      rw [ih hforms]

end SExpr
