import SExpr.Proofs.Reading.Progress
import SExpr.Proofs.Stream.Seam
import SExpr.Proofs.Text.Newline

/-!
# Texts with unified newlines

Only whitespace holds carriage returns and line feeds, so a text with unified newlines has the
lexemes of the text itself but for its whitespace. Where every carriage return is followed by a line
feed, which starts a new line anyway, the tokens also keep their places.

What is read from a text depends on its lexemes alone, and what an error says about places and names
takes no part in it. So unifying the newlines of a text changes nothing but the places of errors,
and not even these where every carriage return is followed by a line feed.
-/
namespace SExpr

/-! ## Tokens -/

open Text

variable {c : Char} {m s t rest : Text} {k : Kind} {L : List (Kind × Text)}

namespace Lexeme

theorem Is.isLine (h : Is k t) (hk : k ≠ .whitespace) : t.IsLine := by
  obtain ⟨c, m, rfl⟩ := h.exists_cons
  have hfirst : c.isWhitespace = false := by
    rw [Bool.eq_false_iff]
    intro hc
    exact hk ((is_whitespace_iff hc).mp h).1
  refine List.forall_mem_cons.mpr ⟨?_, ?_⟩
  · constructor
    · rintro rfl
      simp at hfirst
    · rintro rfl
      simp at hfirst
  · by_cases hblank : k.isBlank = true
    · rcases h.isBlank_iff.mp hblank with hc | rfl
      · simp [hfirst] at hc
      · exact (is_semicolon_iff.mp h).2
    · intro d hd
      have hunknown := h.tail_unknown (Bool.eq_false_iff.mpr hblank) d hd
      constructor
      · rintro rfl
        exact absurd hunknown (by decide)
      · rintro rfl
        exact absurd hunknown (by decide)

theorem Is.unifyNewlines_eq (h : Is k t) (hk : k ≠ .whitespace) : t.unifyNewlines = t :=
  unifyNewlines_of_forall_ne fun c hc => (h.isLine hk c hc).1

theorem isRun_unifyNewlines (h : IsRun .whitespace t) : IsRun .whitespace t.unifyNewlines := by
  refine ⟨unifyNewlines_ne_nil h.1, fun c hc => ?_⟩
  rcases mem_of_mem_unifyNewlines hc with rfl | hc
  · rfl
  · exact h.2 c hc

theorem head?_unifyNewlines (h : ∀ d ∈ rest.head?, d.isWhitespace = false) :
    ∀ d ∈ rest.unifyNewlines.head?, d.isWhitespace = false := by
  cases rest with
  | nil => exact h
  | cons c rest =>
    have hc : c.isWhitespace = false := h c rfl
    have hreturn : c ≠ '\r' := by
      rintro rfl
      simp at hc
    rw [unifyNewlines_cons hreturn]
    exact h

theorem IsLongest.head?_ne_newline (h : IsLongest .whitespace t rest) :
    rest.head? ≠ some '\n' := by
  intro hhead
  have hfeed := (isLongest_whitespace_iff.mp h).2 '\n' hhead
  simp at hfeed

theorem IsLongest.unifyNewlines_append (h : IsLongest k t rest) :
    (t ++ rest).unifyNewlines = t.unifyNewlines ++ rest.unifyNewlines := by
  apply Text.unifyNewlines_append
  intro hlast
  by_cases hk : k = .whitespace
  · subst hk
    exact h.head?_ne_newline
  · exact absurd rfl (h.1.isLine hk _ (List.mem_of_getLast? hlast)).1

theorem IsLongest.unifyNewlines (h : IsLongest k t rest) :
    IsLongest k t.unifyNewlines rest.unifyNewlines := by
  by_cases hk : k = .whitespace
  · subst hk
    rw [isLongest_whitespace_iff] at h ⊢
    exact ⟨isRun_unifyNewlines h.1, head?_unifyNewlines h.2⟩
  · rw [h.1.unifyNewlines_eq hk]
    refine ⟨h.1, fun k' t' ht' hp => ?_⟩
    rcases prefix_or_exists_append hp with hp | ⟨x, hx, rfl⟩
    · exact hp.length_le
    · -- a longer lexeme would hold no newline, so it would stand in the text itself
      have hk' : k' ≠ .whitespace := by
        rintro rfl
        obtain ⟨c, m, rfl⟩ := h.1.exists_cons
        exact hk ((is_whitespace_iff (isRun_cons.mp ht').1).mp h.1).1
      have hfeed : '\n' ∉ x := by
        intro hmem
        exact (ht'.isLine hk' '\n' (List.mem_append_right t hmem)).2 rfl
      apply h.2 k' _ ht'
      rw [List.prefix_append_right_inj]
      exact prefix_of_prefix_unifyNewlines hx hfeed

theorem IsLongest.returnsPaired (h : IsLongest k t rest) (hs : (t ++ rest).ReturnsPaired) :
    t.ReturnsPaired := by
  by_cases hk : k = .whitespace
  · subst hk
    exact hs.left h.head?_ne_newline
  · intro i hi hreturn
    exact absurd rfl (h.1.isLine hk _ (List.mem_of_getElem? hreturn)).1

def unified (l : Kind × Text) : Kind × Text :=
  (l.1, l.2.unifyNewlines)

theorem unified_eq {l : Kind × Text} (h : Is l.1 l.2) (hblank : l.1.isBlank = false) :
    unified l = l := by
  have hk : l.1 ≠ .whitespace := by
    intro hk
    rw [hk] at hblank
    cases hblank
  rw [unified, h.unifyNewlines_eq hk]

/-- The lexemes of a text with unified newlines are those of the text, each with its newlines
unified. -/
theorem Cut.unifyNewlines (h : Cut s L) : Cut s.unifyNewlines (L.map unified) := by
  induction h with
  | nil => exact .nil
  | @cons k t rest L his hmax hcut ih =>
    have hlong : IsLongest k t rest := ⟨his, hmax⟩
    rw [hlong.unifyNewlines_append]
    exact hlong.unifyNewlines.cut ih

theorem filter_unified (h : ∀ l ∈ L, Is l.1 l.2) :
    (L.map unified).filter (fun l => !l.1.isBlank) = L.filter (fun l => !l.1.isBlank) := by
  induction L with
  | nil => rfl
  | cons l L ih =>
    obtain ⟨hl, hL⟩ := List.forall_mem_cons.mp h
    have hkind : (unified l).1 = l.1 := rfl
    rw [List.map_cons, List.filter_cons, List.filter_cons, ih hL, hkind]
    cases hblank : l.1.isBlank with
    | true => rfl
    | false => rw [unified_eq hl hblank]

end Lexeme

/-! ## Tokens -/

/-- A line feed starts a new line, whether or not a carriage return stands before it. -/
theorem Position.afterText_unifyNewlines (h : t.ReturnsPaired) (p : Position) :
    p.afterText t.unifyNewlines = p.afterText t := by
  induction t using newline_induction generalizing p with
  | hnil => rfl
  | hpair t ih =>
    have hrest : t.ReturnsPaired := h.right (s := ['\r', '\n'])
    have hafter : (p.after '\r').after '\n' = p.after '\n' := by
      simp [Position.after]
    rw [Text.unifyNewlines, afterText_cons, ih hrest, afterText_cons, afterText_cons, hafter]
  | hreturn t ht ih => exact absurd h.head? ht
  | hother c t hc ih =>
    have hrest : t.ReturnsPaired := h.right (s := [c])
    rw [unifyNewlines_cons hc, afterText_cons, afterText_cons, ih hrest]

theorem lexemes_unifyNewlines (source : Text) :
    (tokenize source.unifyNewlines false).map Token.lexeme =
      (tokenize source false).map Token.lexeme := by
  obtain ⟨L, hL⟩ := Lexeme.exists_cut source
  rw [map_lexeme_tokenize hL, map_lexeme_tokenize hL.unifyNewlines, Lexeme.filter_unified hL.is]

theorem withoutBlanks_place_unified (h : Lexeme.Cut s L) (hs : s.ReturnsPaired) (p : Position) :
    withoutBlanks (Token.place p (L.map Lexeme.unified)) = withoutBlanks (Token.place p L) := by
  induction h generalizing p with
  | nil => rfl
  | @cons k t rest L his hmax hcut ih =>
    have hlong : Lexeme.IsLongest k t rest := ⟨his, hmax⟩
    have hbehind : p.afterText t.unifyNewlines = p.afterText t :=
      Position.afterText_unifyNewlines (hlong.returnsPaired hs) p
    have hrest := ih hs.right (p.afterText t)
    rw [List.map_cons, Lexeme.unified, Token.place, Token.place, hbehind, withoutBlanks_cons,
      withoutBlanks_cons, hrest]
    cases hblank : k.isBlank with
    | true => rfl
    | false =>
      have hsame : Lexeme.unified (k, t) = (k, t) := Lexeme.unified_eq his hblank
      have ht : t.unifyNewlines = t := congrArg Prod.snd hsame
      rw [ht]

theorem tokenize_unifyNewlines {source : Text} (h : source.ReturnsPaired) :
    tokenize source.unifyNewlines false = tokenize source false := by
  obtain ⟨L, hL⟩ := Lexeme.exists_cut source
  rw [tokenize_false_eq hL, tokenize_false_eq hL.unifyNewlines, withoutBlanks_place_unified hL h]

variable {source filename : Text}

/-! ## Places and names in errors -/

def Token.placeless (token : Token) : Token :=
  { token with position := {} }

namespace ReadError

def withoutPlace : ReadError → ReadError
  | .source e => .source { e with position := {} }
  | e => e

def renamed (name : Text) : ReadError → ReadError
  | .source e => .source { e with filename := name }
  | e => e

end ReadError

theorem Refusal.error_placeless (why : Refusal) (token : Token) :
    why.error filename token.placeless = (why.error filename token).withoutPlace := by
  cases why <;> rfl

theorem Refusal.error_renamed (name : Text) (why : Refusal) (token : Token) :
    why.error name token = (why.error filename token).renamed name := by
  cases why <;> rfl

/-! ## Reading -/

/-- The lexemes of a text decide what is read from it, up to the place of an error. -/
theorem parse_withoutPlace (source filename : Text) :
    (parse source filename).mapError ReadError.withoutPlace =
      Progress.run filename ⟨.endOfInput, [], {}⟩ {}
        (((tokenize source false).map Token.lexeme).map fun l => ⟨l.1, l.2, {}⟩) := by
  have hrun : Progress.run filename (Token.endOf source).placeless {}
      ((tokenize source false).map Token.placeless) =
        (Progress.run filename (.endOf source) {} (tokenize source false)).mapError
          ReadError.withoutPlace :=
    Progress.run_map (f := Token.placeless) (fun _ => rfl) Refusal.error_placeless _ _ _
  rw [parse_eq_run, ← hrun, List.map_map]
  rfl

/-- Unifying newlines changes no datum, and no error but for its place. -/
theorem parse_unifyNewlines_withoutPlace (source filename : Text) :
    (parse source.unifyNewlines filename).mapError ReadError.withoutPlace =
      (parse source filename).mapError ReadError.withoutPlace := by
  rw [parse_withoutPlace, parse_withoutPlace, lexemes_unifyNewlines]

theorem parse_unifyNewlines (h : source.ReturnsPaired) (filename : Text) :
    parse source.unifyNewlines filename = parse source filename := by
  have hend : Token.endOf source.unifyNewlines = Token.endOf source := by
    rw [Token.endOf, Position.afterText_unifyNewlines h, Token.endOf]
  rw [parse_eq_run, parse_eq_run, tokenize_unifyNewlines h, hend]

theorem parse_renamed (source filename name : Text) :
    parse source name = (parse source filename).mapError (ReadError.renamed name) := by
  have hrun : Progress.run name (.endOf source) {} ((tokenize source false).map id) =
      (Progress.run filename (.endOf source) {} (tokenize source false)).mapError
        (ReadError.renamed name) :=
    Progress.run_map (f := id) (fun _ => rfl) (Refusal.error_renamed name) _ _ _
  rw [List.map_id] at hrun
  rw [parse_eq_run, parse_eq_run, hrun]

end SExpr
