import SExpr.Proofs.Stream.Seam

/-!
# Lexemes with blanks between them

Lexemes of any texts can be put into one text, if something blank that ends in whitespace stands
between each two of them. They are found again in it, also those that would run together or be read
in another way if they stood side by side.
-/
namespace SExpr

variable {k : Kind} {s t rest : Text} {L L' : List (Kind × Text)}

namespace Text

def joinWith : List Text → List Text → Text
  | separator :: separators, t :: texts => t ++ (separator ++ joinWith separators texts)
  | _, texts => texts.flatten

end Text

/-- Blanks that keep lexemes apart. The last of them is whitespace, because a comment would take in
the lexeme behind it. -/
def IsSeparator (s : Text) : Prop :=
  s ≠ [] ∧ (∀ token ∈ tokenize s, token.kind.isBlank = true) ∧
    ∀ token ∈ (tokenize s).getLast?, token.kind = .whitespace

namespace Lexeme

theorem Cut.append_of_blank (h : Cut s L) (hblank : ∀ l ∈ L, l.1.isBlank = true)
    (hlast : ∀ l ∈ L.getLast?, l.1 = .whitespace) (h' : Cut rest L')
    (hrest : ∀ c ∈ rest.head?, c.isWhitespace = false) : Cut (s ++ rest) (L ++ L') := by
  induction L generalizing s with
  | nil =>
    obtain rfl : s = [] := h.texts_eq.symm
    exact h'
  | cons lexeme L ih =>
    obtain ⟨k, t⟩ := lexeme
    obtain ⟨s, rfl, hlong, hcut⟩ := cut_cons_iff.mp h
    obtain ⟨hk, hblank⟩ := List.forall_mem_cons.mp hblank
    rw [List.append_assoc, List.cons_append]
    rcases L with _ | ⟨next, L⟩
    · -- the last blank is whitespace, and what follows is not
      obtain rfl : s = [] := hcut.texts_eq.symm
      obtain rfl : k = .whitespace := hlast (k, t) rfl
      have hrun := (isLongest_whitespace_iff.mp hlong).1
      exact (isLongest_whitespace_iff.mpr ⟨hrun, hrest⟩).cut h'
    · obtain ⟨c, m, hs⟩ : ∃ c m, s = c :: m := by
        obtain ⟨more, rfl, hnext, -⟩ := cut_cons_iff.mp hcut
        obtain ⟨c, m, htext⟩ := hnext.1.exists_cons
        exact ⟨c, m ++ more, by rw [htext, List.cons_append]⟩
      have hhead : (s ++ rest).head? = s.head? := by
        rw [hs]
        rfl
      exact (hlong.of_blank hk hhead).cut (ih hcut hblank hlast)

theorem Cut.head?_of_blank (h : Cut s L) (hblank : ∀ l ∈ L, l.1.isBlank = true) :
    ∀ c ∈ s.head?, CharClass.unknown.contains c = false := by
  intro c hc
  rcases cut_iff.mp h with ⟨rfl, -⟩ | ⟨k, t, rest, L', rfl, rfl, hlong, -⟩
  · cases hc
  · obtain ⟨d, m, rfl⟩ := hlong.1.exists_cons
    obtain rfl : d = c := by simpa using hc
    rcases hlong.1.isBlank_iff.mp (hblank _ List.mem_cons_self) with hd | rfl
    · rcases CharClass.eq_of_isWhitespace hd with rfl | rfl | rfl | rfl <;> decide
    · decide

end Lexeme

namespace IsSeparator

theorem cut (h : IsSeparator s) : ∃ L, Lexeme.Cut s L ∧ (∀ l ∈ L, l.1.isBlank = true) ∧
    ∀ l ∈ L.getLast?, l.1 = .whitespace := by
  obtain ⟨-, hblank, hlast⟩ := h
  refine ⟨_, cut_tokenize s, ?_, ?_⟩
  · intro l hl
    obtain ⟨token, htoken, rfl⟩ := List.mem_map.mp hl
    exact hblank token htoken
  · intro l hl
    rw [List.getLast?_map] at hl
    obtain ⟨token, htoken, rfl⟩ := Option.map_eq_some_iff.mp hl
    exact hlast token htoken

/-- A lexeme and a separator in front of a text are cut off it, and the text is cut as before. -/
theorem exists_cut_append (h : IsSeparator s) (his : Lexeme.Is k t) (hk : k.isBlank = false)
    (hcut : Lexeme.Cut rest L) (hrest : ∀ c ∈ rest.head?, c.isWhitespace = false) :
    ∃ L', Lexeme.Cut (t ++ (s ++ rest)) L' ∧
      L'.filter (fun l => !l.1.isBlank) = (k, t) :: L.filter (fun l => !l.1.isBlank) := by
  obtain ⟨Ls, hs, hblank, hlast⟩ := h.cut
  have hboth := hs.append_of_blank hblank hlast hcut hrest
  have hhead : ∀ c ∈ (s ++ rest).head?, CharClass.unknown.contains c = false := by
    obtain ⟨c, m, hsplit⟩ := List.exists_cons_of_ne_nil h.1
    have hstart := hs.head?_of_blank hblank
    rw [hsplit] at hstart ⊢
    exact hstart
  refine ⟨_, (Lexeme.IsLongest.of_delimiter his hk hhead).cut hboth, ?_⟩
  have hdropped : Ls.filter (fun l => !l.1.isBlank) = [] := by
    simpa using hblank
  simp [hk, hdropped]

end IsSeparator

theorem Lexeme.Is.head?_of_not_blank (h : Lexeme.Is k t) (hk : k.isBlank = false) (rest : Text) :
    ∀ c ∈ (t ++ rest).head?, c.isWhitespace = false := by
  intro c hc
  obtain ⟨d, m, rfl⟩ := h.exists_cons
  obtain rfl : d = c := by simpa using hc
  rw [Bool.eq_false_iff]
  intro hd
  rw [h.isBlank_iff.mpr (Or.inl hd)] at hk
  cases hk

theorem exists_cut_joinWith {tokens : List Token} {separators : List Text}
    (htokens : ∀ token ∈ tokens, Lexeme.Is token.kind token.text ∧ token.kind.isBlank = false)
    (hseparators : ∀ s ∈ separators, IsSeparator s)
    (hlength : separators.length = tokens.length - 1) :
    ∃ L, Lexeme.Cut (Text.joinWith separators (tokens.map Token.text)) L ∧
      L.filter (fun l => !l.1.isBlank) = tokens.map Token.lexeme ∧
      ∀ c ∈ (Text.joinWith separators (tokens.map Token.text)).head?, c.isWhitespace = false := by
  induction tokens generalizing separators with
  | nil =>
    obtain rfl : separators = [] := List.eq_nil_of_length_eq_zero hlength
    exact ⟨[], .nil, rfl, by simp [Text.joinWith]⟩
  | cons token tokens ih =>
    obtain ⟨⟨his, hk⟩, htokens⟩ := List.forall_mem_cons.mp htokens
    rcases separators with _ | ⟨separator, separators⟩
    · obtain rfl : tokens = [] := List.eq_nil_of_length_eq_zero hlength.symm
      have hlong : Lexeme.IsLongest token.kind token.text [] :=
        Lexeme.IsLongest.of_delimiter his hk (by simp)
      refine ⟨[token.lexeme], hlong.cut .nil, ?_, his.head?_of_not_blank hk []⟩
      simp [Token.lexeme, hk]
    · obtain ⟨hseparator, hseparators⟩ := List.forall_mem_cons.mp hseparators
      have hlength' : separators.length = tokens.length - 1 := by
        rw [List.length_cons, List.length_cons] at hlength
        omega
      obtain ⟨L, hcut, hfilter, hhead⟩ := ih htokens hseparators hlength'
      obtain ⟨L', hcut', hfilter'⟩ := hseparator.exists_cut_append his hk hcut hhead
      refine ⟨L', hcut', ?_, his.head?_of_not_blank hk _⟩
      rw [hfilter', hfilter]
      rfl

/-- Tokens from any sources that are not blank are the tokens of their texts with separators between
them. -/
theorem tokenize_joinWith {tokens : List Token} {separators : List Text}
    (htokens : ∀ token ∈ tokens,
      token.kind.isBlank = false ∧ ∃ source, token ∈ tokenize source)
    (hseparators : ∀ s ∈ separators, IsSeparator s)
    (hlength : separators.length = tokens.length - 1) :
    (tokenize (Text.joinWith separators (tokens.map Token.text)) false).map Token.lexeme =
      tokens.map Token.lexeme := by
  have hlexemes : ∀ token ∈ tokens,
      Lexeme.Is token.kind token.text ∧ token.kind.isBlank = false := by
    intro token htoken
    obtain ⟨hk, source, hmem⟩ := htokens token htoken
    exact ⟨(cut_tokenize source).is _ (List.mem_map_of_mem hmem), hk⟩
  obtain ⟨L, hcut, hfilter, -⟩ := exists_cut_joinWith hlexemes hseparators hlength
  rw [map_lexeme_tokenize hcut, hfilter]

/-- Lexemes that are told by what follows them, and a comment between two of them. -/
theorem tokenize_joinWith_lookahead :
    (tokenize "- .5;.\n. #\tt".toList false).map Token.lexeme =
      [(.symbol, ['-']), (.number, ".5".toList), (.dot, ['.']), (.unknown, ['#']),
        (.symbol, ['t'])] := by
  have htokens : ∀ token ∈ [⟨.symbol, ['-'], .start⟩, ⟨.number, ".5".toList, .start⟩,
      ⟨.dot, ['.'], .start⟩, ⟨.unknown, ['#'], .start⟩, (⟨.symbol, ['t'], .start⟩ : Token)],
      token.kind.isBlank = false ∧ ∃ source, token ∈ tokenize source := by
    have hown : ∀ token ∈ [⟨.symbol, ['-'], .start⟩, ⟨.number, ".5".toList, .start⟩,
        ⟨.dot, ['.'], .start⟩, ⟨.unknown, ['#'], .start⟩, (⟨.symbol, ['t'], .start⟩ : Token)],
        token.kind.isBlank = false ∧ token ∈ tokenize token.text := by
      decide +kernel
    intro token htoken
    obtain ⟨hk, hmem⟩ := hown token htoken
    exact ⟨hk, token.text, hmem⟩
  have hseparators : ∀ s ∈ [" ".toList, ";.\n".toList, " ".toList, "\t".toList],
      IsSeparator s := by
    simp only [IsSeparator]
    decide +kernel
  exact tokenize_joinWith htokens hseparators rfl

end SExpr
