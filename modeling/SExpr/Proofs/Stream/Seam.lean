import SExpr.Proofs.Stream.Place

/-!
# Texts behind a line feed

What stands behind a line feed has its own tokens, whatever stands before: the tokens of both texts
are those of the first and then those of the second, moved down. Only blanks may grow together where
the texts meet. Places tell their offsets, because they go up with every character.
-/
namespace SExpr

variable {k : Kind} {s t w rest : Text} {L : List (Kind × Text)}

namespace Position

theorem after_following (s : Text) (c : Char) : (following s).after c = following (s ++ [c]) := by
  unfold following after
  rw [List.reverse_append, List.reverse_singleton, List.singleton_append]
  by_cases hc : c = '\n'
  · subst hc
    simp [Nat.add_assoc]
  · rw [List.takeWhile_cons_of_pos (by simp [hc])]
    simp [hc, Nat.add_assoc]

theorem afterText_following (s t : Text) : (following s).afterText t = following (s ++ t) := by
  induction t generalizing s with
  | nil => simp
  | cons c t ih =>
    rw [afterText_cons, after_following, ih, List.append_assoc, List.singleton_append]

theorem afterText_start (t : Text) : start.afterText t = following t :=
  afterText_following [] t

theorem following_append_ne (s : Text) (ht : t ≠ []) : following (s ++ t) ≠ following s := by
  intro h
  obtain ⟨hline, hcolumn⟩ := Position.mk.injEq .. ▸ h
  have hnone : t.count '\n' = 0 := by
    rw [List.count_append] at hline
    omega
  have hmem : ∀ c ∈ t.reverse, decide (c ≠ '\n') = true := by
    intro c hc
    have hc : c ∈ t := List.mem_reverse.mp hc
    have hnot : '\n' ∉ t := List.count_eq_zero.mp hnone
    rw [decide_eq_true_eq]
    intro heq
    subst heq
    exact hnot hc
  rw [List.reverse_append, List.takeWhile_append_of_pos hmem, List.length_append,
    List.length_reverse] at hcolumn
  have hpos : 0 < t.length := List.length_pos_iff.mpr ht
  omega

theorem following_take_ne {m n : Nat} (hmn : m < n) (hn : n ≤ s.length) :
    following (s.take n) ≠ following (s.take m) := by
  obtain ⟨j, rfl⟩ := Nat.exists_eq_add_of_lt hmn
  have hmore : (s.drop m).take (j + 1) ≠ [] := by
    apply List.ne_nil_of_length_pos
    rw [List.length_take, List.length_drop]
    omega
  rw [Nat.add_assoc, List.take_add]
  exact following_append_ne _ hmore

/-- No two offsets in a text have the same place. -/
theorem following_take_inj {m n : Nat} (hm : m ≤ s.length) (hn : n ≤ s.length)
    (h : following (s.take m) = following (s.take n)) : m = n := by
  rcases Nat.lt_trichotomy m n with hlt | heq | hlt
  · exact absurd h.symm (following_take_ne hlt hn)
  · exact heq
  · exact absurd h (following_take_ne hlt hm)

end Position

@[simp] theorem withoutBlanks_nil : withoutBlanks [] = [] := rfl

@[simp] theorem withoutBlanks_append (tokens₁ tokens₂ : List Token) :
    withoutBlanks (tokens₁ ++ tokens₂) = withoutBlanks tokens₁ ++ withoutBlanks tokens₂ :=
  List.filter_append ..

theorem withoutBlanks_cons (token : Token) (tokens : List Token) :
    withoutBlanks (token :: tokens) =
      if token.kind.isBlank then withoutBlanks tokens else token :: withoutBlanks tokens := by
  unfold withoutBlanks
  rw [List.filter_cons]
  cases token.kind.isBlank <;> rfl

theorem withoutBlanks_place_whitespace (p : Position) (w : Text) (L : List (Kind × Text)) :
    withoutBlanks (Token.place p ((.whitespace, w) :: L)) =
      withoutBlanks (Token.place (p.afterText w) L) :=
  withoutBlanks_cons _ _

theorem tokenize_false_eq (h : Lexeme.Cut s L) :
    tokenize s false = withoutBlanks (Token.place .start L) :=
  congrArg withoutBlanks (tokenize_eq h)

theorem map_lexeme_withoutBlanks (tokens : List Token) : (withoutBlanks tokens).map Token.lexeme =
    (tokens.map Token.lexeme).filter (fun l => !l.1.isBlank) := by
  rw [withoutBlanks, List.filter_map]
  rfl

theorem map_lexeme_tokenize (h : Lexeme.Cut s L) :
    (tokenize s false).map Token.lexeme = L.filter (fun l => !l.1.isBlank) := by
  rw [tokenize_false_eq h, map_lexeme_withoutBlanks, Token.map_lexeme_place]

theorem exists_cut_behind_whitespace (hw : Lexeme.IsRun .whitespace w) (h : Lexeme.Cut rest L) :
    ∃ L', Lexeme.Cut (w ++ rest) L' ∧ ∀ p, withoutBlanks (Token.place p L') =
      withoutBlanks (Token.place (p.afterText w) L) := by
  rcases Lexeme.exists_cut_whitespace hw h with ⟨u, L₀, rfl, hcut⟩ | hcut
  · refine ⟨_, hcut, fun p => ?_⟩
    rw [withoutBlanks_place_whitespace, withoutBlanks_place_whitespace, Position.afterText_append]
  · exact ⟨_, hcut, fun p => withoutBlanks_place_whitespace p w L⟩

/-- The lexemes of a text before a line feed are not changed by what follows. -/
theorem exists_cut_seam {L₁ : List (Kind × Text)} (h₁ : Lexeme.Cut s L₁)
    (h : Lexeme.Cut rest L) : ∃ L', Lexeme.Cut (s ++ '\n' :: rest) L' ∧
      ∀ p, withoutBlanks (Token.place p L') = withoutBlanks (Token.place p L₁) ++
        withoutBlanks (Token.place (p.afterText (s ++ ['\n'])) L) := by
  induction L₁ generalizing s with
  | nil =>
    obtain rfl : s = [] := h₁.texts_eq.symm
    have hw : Lexeme.IsRun .whitespace ['\n'] := Lexeme.isRun_singleton.mpr rfl
    exact exists_cut_behind_whitespace hw h
  | cons lexeme L₁ ih =>
    obtain ⟨k, t⟩ := lexeme
    obtain ⟨s, rfl, hlong, hcut⟩ := Lexeme.cut_cons_iff.mp h₁
    by_cases hk : k ≠ .whitespace ∨ s ≠ []
    · obtain ⟨L', hcut', hplace⟩ := ih hcut
      refine ⟨(k, t) :: L', ?_, fun p => ?_⟩
      · rw [List.append_assoc]
        exact (hlong.append_newline hk).cut hcut'
      · rw [Token.place, withoutBlanks_cons, Token.place, withoutBlanks_cons, hplace,
          List.append_assoc t, Position.afterText_append p t]
        split <;> rfl
    · -- the text ends in whitespace, to which the line feed is joined
      obtain ⟨rfl, rfl⟩ : k = .whitespace ∧ s = [] := by simpa [not_or] using hk
      obtain rfl := Lexeme.cut_nil_iff.mp hcut
      have hrun := (Lexeme.isLongest_whitespace_iff.mp hlong).1
      have hw : Lexeme.IsRun .whitespace (t ++ ['\n']) :=
        ⟨by simp, by simpa [or_imp, forall_and] using ⟨hrun.2, by decide⟩⟩
      obtain ⟨L', hcut', hplace⟩ := exists_cut_behind_whitespace hw h
      refine ⟨L', by simpa using hcut', fun p => ?_⟩
      rw [hplace, withoutBlanks_place_whitespace, List.append_nil]
      rfl

theorem tokenize_append_newline (s : Text) (h : Lexeme.Cut rest L) :
    tokenize (s ++ '\n' :: rest) false = tokenize s false ++
      withoutBlanks (Token.place (Position.start.afterText (s ++ ['\n'])) L) := by
  obtain ⟨L₁, hL₁⟩ := Lexeme.exists_cut s
  obtain ⟨L', hcut, hplace⟩ := exists_cut_seam hL₁ h
  rw [tokenize_false_eq hcut, tokenize_false_eq hL₁, hplace]

theorem map_lexeme_tokenize_append (s rest : Text) :
    (tokenize (s ++ '\n' :: rest) false).map Token.lexeme =
      (tokenize s false).map Token.lexeme ++ (tokenize rest false).map Token.lexeme := by
  obtain ⟨L, hL⟩ := Lexeme.exists_cut rest
  rw [tokenize_append_newline s hL, List.map_append, map_lexeme_withoutBlanks,
    Token.map_lexeme_place, map_lexeme_tokenize hL]

end SExpr
