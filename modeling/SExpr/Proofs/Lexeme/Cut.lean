import SExpr.Proofs.Lexeme.Longest

/-!
# Cutting a text into lexemes

Every text is cut in exactly one way. A cut may be stopped early, because what is longest in a text
is longest in each of its beginnings. A lexeme that is not blank goes on unchanged before any
delimiter, so lexemes keep their bounds when other delimited text is put behind them.
-/
namespace SExpr.Lexeme

variable {c : Char} {m s t rest : Text} {k k' : Kind} {L L' L₁ L₂ : List (Kind × Text)}

theorem not_is_nil (k : Kind) : ¬ Is k [] := by
  rcases k with (_ | _) | (_ | _) | _ | _ | (_ | _ | _ | _) | _ | _ | _ | _ | _ | _ | _
  all_goals simp [Is, IsKnown, IsEllipsis, IsNumeral, IsUnsigned, IsSymbolName, IsRun, IsComment,
    IsUnknown]

theorem Is.exists_cons (h : Is k t) : ∃ c m, t = c :: m := by
  rcases t with _ | ⟨c, m⟩
  · exact absurd h (not_is_nil k)
  · exact ⟨c, m, rfl⟩

theorem not_unknown_of_boolean (hm : m = ['t'] ∨ m = ['f']) :
    ¬ (m.head? ≠ some 't' ∧ m.head? ≠ some 'f') := by
  rcases hm with rfl | rfl <;> simp

theorem not_symbol_of_number (hm : IsUnsigned m) :
    ¬ ((∀ d ∈ m, CharClass.symbol.contains d = true) ∧ ∀ d ∈ m.head?, d.isDigit = false) := by
  rintro ⟨hall, hhead⟩
  rcases m with _ | ⟨d, m⟩
  · exact absurd (isUnsigned_iff.mp hm).2 (by simp)
  · rcases hm.first with hd | rfl
    · simp [hhead d rfl] at hd
    · exact absurd (hall '.' (by simp)) (by decide)

theorem not_ellipsis_of_isRun (hm : IsRun .digit m) : m.head? ≠ some '.' := by
  rcases m with _ | ⟨d, m⟩
  · simp
  · intro h
    have hd : d = '.' := by simpa using h
    subst hd
    exact absurd (isRun_cons.mp hm).1 (by decide)

theorem kind_unique_of_mark (hc : c = ',' ∨ c = '#' ∨ c = '-' ∨ c = '.') (h : Is k (c :: m))
    (h' : Is k' (c :: m)) : k = k' := by
  rcases hc with rfl | rfl | rfl | rfl
  · rcases is_comma_iff.mp h with ⟨rfl, rfl⟩ | ⟨rfl, rfl⟩ <;>
      rcases is_comma_iff.mp h' with ⟨rfl, hm⟩ | ⟨rfl, hm⟩ <;> first | rfl | simp at hm
  · rcases is_hash_iff.mp h with ⟨rfl, hm⟩ | ⟨rfl, -, hm⟩ <;>
      rcases is_hash_iff.mp h' with ⟨rfl, hm'⟩ | ⟨rfl, -, hm'⟩
    · rfl
    · exact absurd hm' (not_unknown_of_boolean hm)
    · exact absurd hm (not_unknown_of_boolean hm')
    · rfl
  · rcases is_minus_iff.mp h with ⟨rfl, hm⟩ | ⟨rfl, hm⟩ <;>
      rcases is_minus_iff.mp h' with ⟨rfl, hm'⟩ | ⟨rfl, hm'⟩
    · rfl
    · exact absurd hm' (not_symbol_of_number hm)
    · exact absurd hm (not_symbol_of_number hm')
    · rfl
  · rcases is_point_iff.mp h with ⟨rfl, rfl⟩ | ⟨rfl, hm⟩ | ⟨rfl, hm⟩ <;>
      rcases is_point_iff.mp h' with ⟨rfl, hm'⟩ | ⟨rfl, hm'⟩ | ⟨rfl, hm'⟩
    · rfl
    · exact absurd (head?_of_ellipsis hm') (by simp)
    · exact absurd rfl hm'.1
    · exact absurd (head?_of_ellipsis hm) (by simp [hm'])
    · rfl
    · exact absurd (head?_of_ellipsis hm) (not_ellipsis_of_isRun hm')
    · exact absurd hm' hm.1
    · exact absurd (head?_of_ellipsis hm') (not_ellipsis_of_isRun hm)
    · rfl

theorem Is.kind_unique (h : Is k t) (h' : Is k' t) : k = k' := by
  obtain ⟨c, m, rfl⟩ := h.exists_cons
  by_cases hmark : c = ',' ∨ c = '#' ∨ c = '-' ∨ c = '.'
  · exact kind_unique_of_mark hmark h h'
  simp only [not_or] at hmark
  obtain ⟨hcomma, hhash, hminus, hpoint⟩ := hmark
  rcases hsingle : single? c with _ | k₀
  · by_cases hdigit : c.isDigit = true
    · rw [((is_digit_iff hdigit).mp h).1, ((is_digit_iff hdigit).mp h').1]
    by_cases hsymbol : CharClass.symbolStart.contains c = true
    · rw [((is_symbolStart_iff hsymbol hminus).mp h).1,
        ((is_symbolStart_iff hsymbol hminus).mp h').1]
    by_cases hwhitespace : c.isWhitespace = true
    · rw [((is_whitespace_iff hwhitespace).mp h).1, ((is_whitespace_iff hwhitespace).mp h').1]
    by_cases hsemicolon : c = ';'
    · subst hsemicolon
      rw [(is_semicolon_iff.mp h).1, (is_semicolon_iff.mp h').1]
    · have hnone := starts_eq_false hsingle hcomma (Bool.eq_false_iff.mpr hdigit) hpoint hhash
        hsymbol hwhitespace hsemicolon
      rw [((is_other_iff hnone).mp h).1, ((is_other_iff hnone).mp h').1]
  · rw [((is_single_iff hsingle).mp h).1, ((is_single_iff hsingle).mp h').1]

theorem IsLongest.unique {t' rest' : Text} (h : IsLongest k t rest) (h' : IsLongest k' t' rest')
    (heq : t ++ rest = t' ++ rest') : k = k' ∧ t = t' ∧ rest = rest' := by
  have hle : t.length ≤ t'.length := h'.2 k t h.1 ⟨rest, heq⟩
  have hge : t'.length ≤ t.length := h.2 k' t' h'.1 ⟨rest', heq.symm⟩
  obtain ⟨rfl, rfl⟩ := List.append_inj heq (Nat.le_antisymm hle hge)
  exact ⟨h.1.kind_unique h'.1, rfl, rfl⟩

theorem IsLongest.of_prefix {more : Text} (h : IsLongest k t rest) (hp : more <+: rest) :
    IsLongest k t more := by
  refine ⟨h.1, fun k' t' ht hp' => h.2 k' t' ht (hp'.trans ?_)⟩
  exact (List.prefix_append_right_inj t).mpr hp

theorem cut_iff : Cut s L ↔ s = [] ∧ L = [] ∨ ∃ k t rest L', s = t ++ rest ∧
    L = (k, t) :: L' ∧ IsLongest k t rest ∧ Cut rest L' := by
  constructor
  · rintro (_ | ⟨his, hmax, hcut⟩)
    · exact Or.inl ⟨rfl, rfl⟩
    · exact Or.inr ⟨_, _, _, _, rfl, rfl, ⟨his, hmax⟩, hcut⟩
  · rintro (⟨rfl, rfl⟩ | ⟨k, t, rest, L', rfl, rfl, hlong, hcut⟩)
    · exact .nil
    · exact .cons hlong.1 hlong.2 hcut

theorem IsLongest.cut (h : IsLongest k t rest) (hcut : Cut rest L) :
    Cut (t ++ rest) ((k, t) :: L) :=
  .cons h.1 h.2 hcut

@[simp] theorem cut_nil_iff : Cut [] L ↔ L = [] := by
  rw [cut_iff]
  constructor
  · rintro (⟨-, rfl⟩ | ⟨k, t, rest, L', heq, -, hlong, -⟩)
    · rfl
    · obtain ⟨c, m, rfl⟩ := hlong.1.exists_cons
      simp at heq
  · rintro rfl
    exact Or.inl ⟨rfl, rfl⟩

theorem cut_cons_iff : Cut s ((k, t) :: L) ↔
    ∃ rest, s = t ++ rest ∧ IsLongest k t rest ∧ Cut rest L := by
  rw [cut_iff]
  simp only [List.cons_ne_nil, and_false, false_or, List.cons.injEq, Prod.mk.injEq]
  constructor
  · rintro ⟨_, _, rest, _, rfl, ⟨⟨rfl, rfl⟩, rfl⟩, hlong, hcut⟩
    exact ⟨rest, rfl, hlong, hcut⟩
  · rintro ⟨rest, rfl, hlong, hcut⟩
    exact ⟨_, _, rest, _, rfl, ⟨⟨rfl, rfl⟩, rfl⟩, hlong, hcut⟩

def texts (L : List (Kind × Text)) : Text :=
  L.flatMap Prod.snd

@[simp] theorem texts_nil : texts [] = [] := rfl

@[simp] theorem texts_cons (k : Kind) (t : Text) (L : List (Kind × Text)) :
    texts ((k, t) :: L) = t ++ texts L := rfl

@[simp] theorem texts_append (L₁ L₂ : List (Kind × Text)) :
    texts (L₁ ++ L₂) = texts L₁ ++ texts L₂ :=
  List.flatMap_append

@[simp] theorem texts_singleton (lexeme : Kind × Text) : texts [lexeme] = lexeme.2 :=
  List.append_nil _

theorem Cut.texts_eq (h : Cut s L) : texts L = s := by
  induction h with
  | nil => rfl
  | cons _ _ _ ih => rw [texts_cons, ih]

theorem Cut.is (h : Cut s L) : ∀ l ∈ L, Is l.1 l.2 := by
  induction h with
  | nil => simp
  | cons his _ _ ih => exact List.forall_mem_cons.mpr ⟨his, ih⟩

/-- A text is cut in one way only. -/
theorem Cut.unique (h : Cut s L) (h' : Cut s L') : L = L' := by
  induction h generalizing L' with
  | nil => exact (cut_nil_iff.mp h').symm
  | cons his hmax hcut ih =>
    rcases cut_iff.mp h' with ⟨hnil, -⟩ | ⟨k', t', rest', L', heq, rfl, hlong, hcut'⟩
    · obtain ⟨c, m, rfl⟩ := his.exists_cons
      simp at hnil
    · obtain ⟨rfl, rfl, rfl⟩ := IsLongest.unique ⟨his, hmax⟩ hlong heq
      rw [ih hcut']

theorem exists_cut (t : Text) : ∃ L, Cut t L := by
  induction hn : t.length using Nat.strong_induction_on generalizing t with
  | _ n ih =>
    rcases t with _ | ⟨first, rest⟩
    · exact ⟨[], .nil⟩
    · have hlong := isLongest_classify first rest
      have hshort : (rest.drop (classify first rest).2).length < n := by
        rw [← hn, List.length_drop, List.length_cons]
        omega
      obtain ⟨L, hL⟩ := ih _ hshort _ rfl
      have hcut := hlong.cut hL
      rw [List.cons_append, List.take_append_drop] at hcut
      exact ⟨_, hcut⟩

theorem Cut.truncate (h : Cut s (L₁ ++ L₂)) : Cut (texts L₁) L₁ := by
  induction L₁ generalizing s with
  | nil => exact .nil
  | cons lexeme L₁ ih =>
    obtain ⟨rest, rfl, hlong, hcut⟩ := cut_cons_iff.mp h
    have hp : texts L₁ <+: rest := ⟨texts L₂, (texts_append L₁ L₂).symm.trans hcut.texts_eq⟩
    exact (hlong.of_prefix hp).cut (ih hcut)

theorem Cut.remainder (h : Cut s (L₁ ++ L₂)) : Cut (texts L₂) L₂ := by
  induction L₁ generalizing s with
  | nil =>
    have hcut : Cut s L₂ := h
    rwa [hcut.texts_eq]
  | cons lexeme L₁ ih =>
    obtain ⟨rest, rfl, hlong, hcut⟩ := cut_cons_iff.mp h
    exact ih hcut

end SExpr.Lexeme
