import SExpr.Proofs.Lexeme.Cut

/-!
# Lexemes before delimiters

Brackets, semicolons and whitespace are delimiters: they stand inside of blank lexemes only, so a
lexeme that is not blank ends before a delimiter at the latest. A line feed behind a text therefore
leaves all its lexemes as they are, except for whitespace at its end.
-/
namespace SExpr.Lexeme

variable {c : Char} {m t w rest more : Text} {k : Kind} {L : List (Kind × Text)}

theorem unknown_of_symbol (h : CharClass.symbol.contains c = true) :
    CharClass.unknown.contains c = true := by
  rw [← Bool.not_eq_false]
  intro hc
  simp only [CharClass.contains, Bool.and_eq_false_iff, Bool.not_eq_false', List.contains_iff_mem]
    at hc
  rcases hc with hc | hc
  · have hp : CharClass.unknownEnders.all (!CharClass.symbol.contains ·) = true := by decide
    have hnot := List.all_eq_true.mp hp c hc
    simp [h] at hnot
  · rcases CharClass.eq_of_isWhitespace hc with rfl | rfl | rfl | rfl <;> exact absurd h (by decide)

theorem unknown_of_digit (h : CharClass.digit.contains c = true) :
    CharClass.unknown.contains c = true := by
  have hdigit : c.isDigit = true := h
  exact unknown_of_symbol (by simp [CharClass.contains, hdigit])

theorem IsNumberEnd.unknown (h : IsNumberEnd t) : ∀ d ∈ t, CharClass.unknown.contains d = true := by
  rcases h with hall | ⟨whole, fraction, hw, hf, rfl⟩
  · exact fun d hd => unknown_of_digit (hall d hd)
  · intro d hd
    rcases List.mem_append.mp hd with hd | hd
    · exact unknown_of_digit (hw d hd)
    · rcases List.mem_cons.mp hd with rfl | hd
      · decide
      · exact unknown_of_digit (hf d hd)

theorem Is.tail_unknown (h : Is k (c :: m)) (hk : k.isBlank = false) :
    ∀ d ∈ m, CharClass.unknown.contains d = true := by
  rcases k with (_ | _) | (_ | _) | _ | _ | (_ | _ | _ | _) | _ | _ | _ | _ | _ | _ | _
  case number =>
    rcases isNumeral_cons.mp h with h | ⟨-, h⟩
    · exact fun d hd => (isUnsigned_iff.mp h).1.unknown d (by simp [hd])
    · exact (isUnsigned_iff.mp h).1.unknown
  case symbol => exact fun d hd => unknown_of_symbol ((isSymbolName_cons.mp h).1.2 d hd)
  case ellipsis =>
    have hpoint : CharClass.unknown.contains '.' = true := rfl
    rcases (isEllipsis_cons.mp h).2 with rfl | ⟨digits, hrun, rfl⟩
    · exact List.forall_mem_cons.mpr ⟨hpoint, List.forall_mem_singleton.mpr hpoint⟩
    · exact List.forall_mem_cons.mpr ⟨hpoint, fun d hd => unknown_of_digit (hrun.2 d hd)⟩
  case boolean =>
    rcases h with h | h <;> obtain ⟨-, rfl⟩ := List.cons.inj h <;>
      exact List.forall_mem_singleton.mpr rfl
  case unknown => exact (isUnknown_cons.mp h).1.2
  case abbreviation.unquoteSplicing =>
    obtain ⟨-, rfl⟩ := List.cons.inj h
    exact List.forall_mem_singleton.mpr rfl
  case whitespace => simp [Kind.isBlank] at hk
  case lineComment => simp [Kind.isBlank] at hk
  case endOfInput => exact h.elim
  all_goals
    obtain ⟨-, rfl⟩ := List.cons.inj h
    simp

theorem Is.isBlank_iff (h : Is k (c :: m)) :
    k.isBlank = true ↔ c.isWhitespace = true ∨ c = ';' := by
  constructor
  · intro hk
    rcases k with (_ | _) | (_ | _) | _ | _ | (_ | _ | _ | _) | _ | _ | _ | _ | _ | _ | _
    case whitespace => exact Or.inl (isRun_cons.mp h).1
    case lineComment => exact Or.inr (isComment_cons.mp h).1
    all_goals simp [Kind.isBlank] at hk
  · rintro (hc | rfl)
    · rw [((is_whitespace_iff hc).mp h).1]
      rfl
    · rw [(is_semicolon_iff.mp h).1]
      rfl

theorem prefix_or_exists_append (h : m <+: t ++ rest) : m <+: t ∨ ∃ x, x <+: rest ∧ m = t ++ x := by
  rcases List.prefix_or_prefix_of_prefix h (List.prefix_append t rest) with hm | ⟨x, rfl⟩
  · exact Or.inl hm
  · exact Or.inr ⟨x, (List.prefix_append_right_inj t).mp h, rfl⟩

theorem IsLongest.of_delimiter (h : Is k t) (hk : k.isBlank = false)
    (hd : ∀ d ∈ rest.head?, CharClass.unknown.contains d = false) : IsLongest k t rest := by
  refine ⟨h, fun k' t' ht' hp => ?_⟩
  rcases prefix_or_exists_append hp with hp | ⟨_ | ⟨d, x⟩, ⟨y, rfl⟩, rfl⟩
  · exact hp.length_le
  · simp
  · -- this lexeme has the delimiter inside, so it is blank, and so is one that starts as it does
    obtain ⟨c, m, rfl⟩ := h.exists_cons
    have hblank : k'.isBlank = true := by
      rw [← Bool.not_eq_false]
      intro hk'
      have hin := ht'.tail_unknown hk' d (by simp)
      simp [hd d rfl] at hin
    have hsame := h.isBlank_iff.mpr (ht'.isBlank_iff.mp hblank)
    simp [hk] at hsame

/-- Where lexemes go on within a class only, the longest ends before the first character outside. -/
theorem isLongest_run_iff {p : Char → Bool}
    (hiff : ∀ k' m, Is k' (c :: m) ↔ k' = k ∧ ∀ d ∈ m, p d = true) :
    IsLongest k (c :: m) rest ↔ (∀ d ∈ m, p d = true) ∧ ∀ d ∈ rest.head?, p d = false := by
  constructor
  · rintro ⟨his, hmax⟩
    have hm := ((hiff k m).mp his).2
    refine ⟨hm, fun d hd => ?_⟩
    rw [Bool.eq_false_iff]
    intro hp
    rcases rest with _ | ⟨e, rest⟩
    · simp at hd
    · obtain rfl : e = d := by simpa using hd
      have hlonger : Is k (c :: (m ++ [e])) :=
        (hiff k _).mpr ⟨rfl, List.forall_mem_append.mpr ⟨hm, List.forall_mem_singleton.mpr hp⟩⟩
      have hle := hmax k _ hlonger ⟨rest, by simp⟩
      rw [List.length_cons, List.length_cons, List.length_append, List.length_singleton] at hle
      omega
  · rintro ⟨hm, hhead⟩
    refine ⟨(hiff k m).mpr ⟨rfl, hm⟩, fun k' t ht hp => ?_⟩
    obtain ⟨d, m', rfl⟩ := ht.exists_cons
    rw [List.cons_append] at hp
    obtain ⟨rfl, hmore⟩ := List.cons_prefix_cons.mp hp
    have hle := length_le_takeWhile hmore ((hiff k' m').mp ht).2
    rw [takeWhile_append_of_head hm hhead] at hle
    exact Nat.succ_le_succ hle

theorem isLongest_whitespace_iff : IsLongest .whitespace w rest ↔
    IsRun .whitespace w ∧ ∀ d ∈ rest.head?, d.isWhitespace = false := by
  rcases w with _ | ⟨c, m⟩
  · have hnil : ¬ IsRun .whitespace [] := fun h => h.1 rfl
    exact ⟨fun h => absurd h.1 hnil, fun h => absurd h.1 hnil⟩
  · rw [isRun_cons]
    constructor
    · intro h
      have hc := (isRun_cons.mp h.1).1
      obtain ⟨hm, hhead⟩ := (isLongest_run_iff fun _ _ => is_whitespace_iff hc).mp h
      exact ⟨⟨hc, hm⟩, hhead⟩
    · rintro ⟨⟨hc, hm⟩, hhead⟩
      exact (isLongest_run_iff fun _ _ => is_whitespace_iff hc).mpr ⟨hm, hhead⟩

theorem IsLongest.of_blank (h : IsLongest k t rest) (hk : k.isBlank = true)
    (hhead : more.head? = rest.head?) : IsLongest k t more := by
  obtain ⟨c, m, rfl⟩ := h.1.exists_cons
  rcases h.1.isBlank_iff.mp hk with hc | rfl
  · obtain rfl := ((is_whitespace_iff hc).mp h.1).1
    rw [isLongest_run_iff fun _ _ => is_whitespace_iff hc] at h ⊢
    rwa [hhead]
  · have hcomment : ∀ k' m', Is k' (';' :: m') ↔
        k' = k ∧ ∀ d ∈ m', (d ≠ '\r' && d ≠ '\n') = true := by
      intro k' m'
      rw [is_semicolon_iff, (is_semicolon_iff.mp h.1).1]
      simp
    rw [isLongest_run_iff hcomment] at h ⊢
    rwa [hhead]

theorem IsLongest.append_newline (h : IsLongest k t rest) (hk : k ≠ .whitespace ∨ rest ≠ []) :
    IsLongest k t (rest ++ '\n' :: more) := by
  refine ⟨h.1, fun k' t' ht' hp => ?_⟩
  rw [← List.append_assoc] at hp
  rcases prefix_or_exists_append hp with hp | ⟨_ | ⟨d, x⟩, hx, rfl⟩
  · exact h.2 k' t' ht' hp
  · exact h.2 k' _ ht' (by simp)
  · -- only whitespace holds the line feed, so all before it is whitespace too
    obtain ⟨rfl, -⟩ := List.cons_prefix_cons.mp hx
    obtain ⟨c, m, rfl⟩ := h.1.exists_cons
    have hblank : k'.isBlank = true := by
      rw [← Bool.not_eq_false]
      intro hk'
      exact absurd (ht'.tail_unknown hk' '\n' (by simp)) (by decide)
    rcases ht'.isBlank_iff.mp hblank with hc | rfl
    · have hall := ((is_whitespace_iff hc).mp ht').2
      obtain rfl := ((is_whitespace_iff hc).mp h.1).1
      rcases rest with _ | ⟨e, rest⟩
      · simp at hk
      · have he := (isLongest_whitespace_iff.mp h).2 e rfl
        simp [hall e (by simp)] at he
    · exact absurd rfl ((is_semicolon_iff.mp ht').2 '\n' (by simp)).2

/-- Whitespace in front of a text grows together with the whitespace the text starts with. -/
theorem exists_cut_whitespace (hw : IsRun .whitespace w) (hcut : Cut rest L) :
    (∃ u L', L = (.whitespace, u) :: L' ∧ Cut (w ++ rest) ((.whitespace, w ++ u) :: L')) ∨
      Cut (w ++ rest) ((.whitespace, w) :: L) := by
  rcases cut_iff.mp hcut with ⟨rfl, rfl⟩ | ⟨k, t, rest, L', rfl, rfl, hlong, hcut'⟩
  · exact Or.inr ((isLongest_whitespace_iff.mpr ⟨hw, by simp⟩).cut hcut)
  by_cases hk : k = .whitespace
  · subst hk
    obtain ⟨hrun, hd⟩ := isLongest_whitespace_iff.mp hlong
    refine Or.inl ⟨t, L', rfl, ?_⟩
    rw [← List.append_assoc]
    refine (isLongest_whitespace_iff.mpr ⟨⟨by simp [hrun.1], ?_⟩, hd⟩).cut hcut'
    simpa [or_imp, forall_and] using ⟨hw.2, hrun.2⟩
  · refine Or.inr ((isLongest_whitespace_iff.mpr ⟨hw, ?_⟩).cut hcut)
    obtain ⟨c, m, rfl⟩ := hlong.1.exists_cons
    intro d hd
    obtain rfl : c = d := by simpa using hd
    rw [Bool.eq_false_iff]
    intro hc
    exact hk ((is_whitespace_iff hc).mp hlong.1).1

end SExpr.Lexeme
