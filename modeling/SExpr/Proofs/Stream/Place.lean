import SExpr.Proofs.Lexeme.Delimiter
import SExpr.TokenStream

/-!
# Lexemes in their places

A text determines its lexemes, and with the place of its first character it determines all tokens.
A token stream holds just these tokens, so what the stream does can be said of a list of tokens.
-/
namespace SExpr

variable {k : Kind} {t rest : Text} {L L₁ L₂ : List (Kind × Text)}

namespace Position

def afterText (p : Position) (t : Text) : Position :=
  t.foldl after p

@[simp] theorem afterText_nil (p : Position) : p.afterText [] = p := rfl

@[simp] theorem afterText_cons (p : Position) (c : Char) (t : Text) :
    p.afterText (c :: t) = (p.after c).afterText t := rfl

@[simp] theorem afterText_append (p : Position) (s t : Text) :
    p.afterText (s ++ t) = (p.afterText s).afterText t :=
  List.foldl_append

end Position

namespace Token

def lexeme (t : Token) : Kind × Text :=
  (t.kind, t.text)

/-- The tokens of lexemes in a row, of which the first stands at `p`. -/
def place (p : Position) : List (Kind × Text) → List Token
  | [] => []
  | (k, t) :: L => ⟨k, t, p⟩ :: place (p.afterText t) L

@[simp] theorem place_append (p : Position) (L₁ L₂ : List (Kind × Text)) :
    place p (L₁ ++ L₂) = place p L₁ ++ place (p.afterText (Lexeme.texts L₁)) L₂ := by
  induction L₁ generalizing p with
  | nil => rfl
  | cons lexeme L₁ ih =>
    obtain ⟨k, t⟩ := lexeme
    simp [place, ih]

@[simp] theorem map_lexeme_place (p : Position) (L : List (Kind × Text)) :
    (place p L).map lexeme = L := by
  induction L generalizing p with
  | nil => rfl
  | cons _ L ih => simp [place, lexeme, ih]

end Token

namespace Cursor

theorem advance_eq (c : Cursor) (n : Nat) : c.advance n =
    ⟨(c.ahead.take n).reverse ++ c.behind, c.ahead.drop n,
      c.position.afterText (c.ahead.take n)⟩ := by
  induction n generalizing c with
  | zero => rfl
  | succ n ih =>
    obtain ⟨behind, ahead, position⟩ := c
    rcases ahead with _ | ⟨next, ahead⟩ <;> simp [advance, ih]

theorem advance_append {c : Cursor} (h : c.ahead = t ++ rest) : c.advance t.length =
    ⟨t.reverse ++ c.behind, rest, c.position.afterText t⟩ := by
  simp [advance_eq, h]

theorem scan_nil {c : Cursor} (h : c.ahead = []) :
    c.scan = (⟨.endOfInput, [], c.position⟩, c) := by
  rw [scan, h]

/-- The next token is the longest lexeme ahead. -/
theorem scan_append {c : Cursor} (h : c.ahead = t ++ rest) (hlong : Lexeme.IsLongest k t rest) :
    c.scan = (⟨k, t, c.position⟩, ⟨t.reverse ++ c.behind, rest, c.position.afterText t⟩) := by
  obtain ⟨first, more, rfl⟩ := hlong.1.exists_cons
  have hclassify := Lexeme.isLongest_classify first (more ++ rest)
  obtain ⟨rfl, hmore, hrest⟩ := hlong.unique hclassify (by simp)
  have htake := (List.cons.inj hmore).2
  simp only [scan, h, List.cons_append, advance_eq, List.take_succ_cons, List.drop_succ_cons]
  rw [← htake, ← hrest]

def atEnd (c : Cursor) : Cursor :=
  ⟨c.ahead.reverse ++ c.behind, [], c.position.afterText c.ahead⟩

theorem atEnd_of_append {c : Cursor} (h : c.ahead = t ++ rest) :
    atEnd ⟨t.reverse ++ c.behind, rest, c.position.afterText t⟩ = c.atEnd := by
  simp [atEnd, h]

end Cursor

namespace TokenStream

theorem pop_append {c : Cursor} (h : c.ahead = t ++ rest) (hlong : Lexeme.IsLongest k t rest) :
    pop ⟨c, none⟩ = (⟨k, t, c.position⟩,
      ⟨⟨t.reverse ++ c.behind, rest, c.position.afterText t⟩, none⟩) := by
  simp [pop, Cursor.scan_append h hlong]

def endToken (c : Cursor) : Token :=
  ⟨.endOfInput, [], c.atEnd.position⟩

/-- A stream gives the lexemes of its text in their places, and then the end of the input. -/
theorem drain_eq {c : Cursor} (h : Lexeme.Cut c.ahead L) :
    drain ⟨c, none⟩ = (Token.place c.position L, ⟨c.atEnd, some (endToken c)⟩) := by
  induction L generalizing c with
  | nil =>
    have hnil : c.ahead = [] := h.texts_eq.symm
    have hatEnd : c.atEnd = c := by
      obtain ⟨behind, ahead, position⟩ := c
      obtain rfl : ahead = [] := hnil
      rfl
    rw [drain]
    simp [pop, peek, Cursor.scan_nil hnil, Token.place, endToken, hatEnd]
  | cons lexeme L ih =>
    obtain ⟨k, t⟩ := lexeme
    obtain ⟨rest, hahead, hlong, hcut⟩ := Lexeme.cut_cons_iff.mp h
    have hk : k ≠ .endOfInput := by
      rintro rfl
      exact hlong.1.elim
    have hrest := ih (c := ⟨t.reverse ++ c.behind, rest, c.position.afterText t⟩) hcut
    rw [drain]
    simp only [pop_append hahead hlong, hk, dif_neg, not_false_iff, hrest, Token.place]
    rw [endToken, Cursor.atEnd_of_append hahead]
    rfl

end TokenStream

theorem tokenize_eq {source : Text} (h : Lexeme.Cut source L) :
    tokenize source = Token.place .start L := by
  have hcut : Lexeme.Cut (Cursor.ofText source).ahead L := h
  simp only [tokenize, TokenStream.listTokens, TokenStream.ofText, TokenStream.drain_eq hcut]
  rfl

/-- The lexemes of the tokens are the cut of the text. -/
theorem cut_tokenize (source : Text) :
    Lexeme.Cut source ((tokenize source).map Token.lexeme) := by
  obtain ⟨L, hL⟩ := Lexeme.exists_cut source
  rw [tokenize_eq hL, Token.map_lexeme_place]
  exact hL

theorem flatMap_text_tokenize (source : Text) : (tokenize source).flatMap Token.text = source := by
  have htexts := (cut_tokenize source).texts_eq
  rwa [Lexeme.texts, List.flatMap_map] at htexts

/-- The tokens of a text are its only segmentation into longest lexemes, the kind of each lexeme is
the only one it has, and nothing of the text is lost. -/
theorem tokenize_isSegmentation (source : Text) :
    (∀ L, Lexeme.Cut source L ↔ L = (tokenize source).map Token.lexeme) ∧
      (∀ k k' t, Lexeme.Is k t → Lexeme.Is k' t → t ≠ [] ∧ k = k') ∧
      (tokenize source).flatMap Token.text = source := by
  refine ⟨fun L => ?_, fun k k' t h h' => ?_, ?_⟩
  · constructor
    · intro h
      exact h.unique (cut_tokenize source)
    · rintro rfl
      exact cut_tokenize source
  · obtain ⟨c, m, rfl⟩ := h.exists_cons
    exact ⟨by simp, h.kind_unique h'⟩
  · exact flatMap_text_tokenize source

end SExpr
