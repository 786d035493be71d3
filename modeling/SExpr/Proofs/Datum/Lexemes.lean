import SExpr.Proofs.Reading.Accepted
import SExpr.Proofs.Stream.Seam

/-!
# Texts put together from lexemes

A text that is written piece by piece has the lexemes of its pieces, if each piece is a lexeme and
a delimiter or nothing follows it. Whitespace in front of a text adds nothing to it.
-/
namespace SExpr

variable {k : Kind} {s t rest : Text} {L : List (Kind × Text)}

/-- The lexemes of a text without blanks are `L`, and no count among them is too long. -/
def HasLexemes (s : Text) (L : List (Kind × Text)) : Prop :=
  (∃ L₀, Lexeme.Cut s L₀ ∧ L₀.filter (fun l => !l.1.isBlank) = L) ∧
    ∀ t, (Kind.ellipsis, t) ∈ L → t.countP Char.isDigit ≤ CountError.digitLimit

/-- A lexeme that is put before the text ends before the text does. -/
def Delimited (rest : Text) : Prop :=
  ∀ c ∈ rest.head?, CharClass.unknown.contains c = false

theorem delimited_cons {c : Char} (hc : CharClass.unknown.contains c = false) (rest : Text) :
    Delimited (c :: rest) := by
  intro d hd
  obtain rfl : c = d := by simpa using hd
  exact hc

theorem hasLexemes_nil : HasLexemes [] [] :=
  ⟨⟨[], .nil, rfl⟩, by simp⟩

theorem HasLexemes.cons_of_isLongest (h : HasLexemes rest L) (hlong : Lexeme.IsLongest k t rest)
    (hk : k.isBlank = false)
    (hcount : k = .ellipsis → t.countP Char.isDigit ≤ CountError.digitLimit) :
    HasLexemes (t ++ rest) ((k, t) :: L) := by
  obtain ⟨⟨L₀, hcut, hfilter⟩, hcounts⟩ := h
  refine ⟨⟨(k, t) :: L₀, hlong.cut hcut, ?_⟩, ?_⟩
  · rw [List.filter_cons_of_pos (by simp [hk]), hfilter]
  · intro u hu
    rcases List.mem_cons.mp hu with heq | hmem
    · cases heq
      exact hcount rfl
    · exact hcounts u hmem

theorem HasLexemes.cons (h : HasLexemes rest L) (his : Lexeme.Is k t) (hk : k.isBlank = false)
    (hrest : Delimited rest)
    (hcount : k = .ellipsis → t.countP Char.isDigit ≤ CountError.digitLimit) :
    HasLexemes (t ++ rest) ((k, t) :: L) :=
  h.cons_of_isLongest (Lexeme.IsLongest.of_delimiter his hk hrest) hk hcount

theorem HasLexemes.cons_single {c : Char} (h : HasLexemes rest L)
    (hc : Lexeme.single? c = some k) (hk : k.isBlank = false) (hcount : k ≠ .ellipsis) :
    HasLexemes (c :: rest) ((k, [c]) :: L) :=
  h.cons_of_isLongest (Lexeme.isLongest_single hc) hk (fun heq => absurd heq hcount)

theorem HasLexemes.whitespace {c : Char} (h : HasLexemes rest L) (hc : c.isWhitespace = true) :
    HasLexemes (c :: rest) L := by
  obtain ⟨⟨L₀, hcut, hfilter⟩, hcounts⟩ := h
  have hw : Lexeme.IsRun .whitespace [c] := Lexeme.isRun_singleton.mpr hc
  refine ⟨?_, hcounts⟩
  rcases Lexeme.exists_cut_whitespace hw hcut with ⟨u, L₁, rfl, hcut'⟩ | hcut'
  · exact ⟨_, hcut', by simpa [Kind.isBlank] using hfilter⟩
  · exact ⟨_, hcut', by simpa [Kind.isBlank] using hfilter⟩

theorem HasLexemes.space (h : HasLexemes rest L) : HasLexemes (' ' :: rest) L :=
  h.whitespace rfl

theorem HasLexemes.tokenize (h : HasLexemes s L) :
    (tokenize s false).map Token.lexeme = L ∧ CountsShort (tokenize s false) := by
  obtain ⟨⟨L₀, hcut, hfilter⟩, hcounts⟩ := h
  have hlexemes : (SExpr.tokenize s false).map Token.lexeme = L := by
    rw [map_lexeme_tokenize hcut, hfilter]
  refine ⟨hlexemes, fun token htoken hk => ?_⟩
  have hmem : token.lexeme ∈ L := by
    rw [← hlexemes]
    exact List.mem_map_of_mem htoken
  rw [Token.lexeme, hk] at hmem
  exact hcounts token.text hmem

/-- A text with the lexemes of forms is read as the values of the forms. -/
theorem HasLexemes.parse {forms : List Form} (h : HasLexemes s (forms.flatMap Form.lexemes))
    (filename : Text) : parse s filename = .ok (forms.map Form.value) :=
  parse_forms h.tokenize.1 h.tokenize.2

/-! ## Spaces between pieces -/

def spaced (parts : List Text) : Text :=
  parts.flatMap (' ' :: ·)

theorem join_cons (part : Text) (parts : List Text) :
    Text.join [' '] (part :: parts) = part ++ spaced parts := by
  induction parts generalizing part with
  | nil => simp [Text.join, spaced]
  | cons next parts ih =>
    have hnext := ih next
    rw [Text.join] at hnext ⊢
    rw [List.intercalate_cons_cons, hnext]
    simp [spaced]

theorem delimited_spaced (parts : List Text) (h : Delimited rest) :
    Delimited (spaced parts ++ rest) := by
  cases parts with
  | nil => exact h
  | cons part parts => exact delimited_cons rfl _

theorem delimited_parts (parts : List Text) : Delimited (spaced parts) := by
  have h : Delimited (spaced parts ++ []) := delimited_spaced parts (by simp [Delimited])
  rwa [List.append_nil] at h

end SExpr
