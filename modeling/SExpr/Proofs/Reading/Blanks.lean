import SExpr.Proofs.Reading.Progress
import SExpr.Proofs.Stream.Seam

/-!
# Blanks mean nothing

What a text is read as depends on its tokens without blanks only, and on nothing but their kinds and
texts. Two texts with the same lexemes have the same data, or the same error at the same token.
-/
namespace SExpr

variable {s t filename : Text} {before after tokens : List Token} {token : Token}

/-- Errors of two texts that are the same but for their places, which are those of tokens of one
index or the ends of the texts. -/
inductive SameError (s t filename : Text) : ReadError → ReadError → Prop
  | count (e : CountError) : SameError s t filename (.count e) (.count e)
  | atToken (fault : Fault) {i : Nat} {token token' : Token} :
      (tokenize s false)[i]? = some token → (tokenize t false)[i]? = some token' →
      SameError s t filename (.source ⟨fault, filename, token.position⟩)
        (.source ⟨fault, filename, token'.position⟩)
  | atEnd (fault : Fault) : SameError s t filename (.source ⟨fault, filename, .following s⟩)
      (.source ⟨fault, filename, .following t⟩)

theorem exists_split_of_lexemes
    (h : tokens.map Token.lexeme = (before ++ token :: after).map Token.lexeme) :
    ∃ before' token' after', tokens = before' ++ token' :: after' ∧
      before'.map Token.lexeme = before.map Token.lexeme ∧ token'.lexeme = token.lexeme := by
  rw [List.map_append, List.map_cons] at h
  obtain ⟨before', tail, rfl, hbefore, htail⟩ := List.map_eq_append_iff.mp h
  obtain ⟨token', after', rfl, htoken, -⟩ := List.map_eq_cons_iff.mp htail
  exact ⟨before', token', after', rfl, hbefore, htoken⟩

theorem Token.describe_of_lexeme {token token' : Token} (h : token.lexeme = token'.lexeme) :
    token.describe = token'.describe := by
  obtain ⟨hkind, htext⟩ := Prod.mk.inj h
  rw [describe, describe, hkind, htext]

theorem sameError_of_refused {token' : Token} {i : Nat}
    (hs : (tokenize s false)[i]? = some token) (ht : (tokenize t false)[i]? = some token')
    (hlexeme : token'.lexeme = token.lexeme) (why : Refusal) :
    SameError s t filename (why.error filename token) (why.error filename token') := by
  cases why with
  | unknownText =>
    have htext : token'.text = token.text := congrArg Prod.snd hlexeme
    rw [Refusal.error, Refusal.error, htext]
    exact .atToken _ hs ht
  | wanted w =>
    rw [Refusal.error, Refusal.error, Token.describe_of_lexeme hlexeme]
    exact .atToken _ hs ht
  | count e => exact .count e

theorem sameError_of_pending (w : Wanted) :
    SameError s t filename ((Refusal.wanted w).error filename (.endOf s))
      ((Refusal.wanted w).error filename (.endOf t)) := by
  have h : SameError s t filename _ _ := .atEnd (.unexpected w.describe "end of input".toList)
  rwa [← Position.afterText_start, ← Position.afterText_start] at h

/-- Texts with the same tokens but for blanks and places are read as the same data, or they have the
same error at tokens of one index. -/
theorem parse_eq_of_lexemes
    (h : (tokenize s false).map Token.lexeme = (tokenize t false).map Token.lexeme)
    (filename : Text) :
    (∃ data, parse s filename = .ok data ∧ parse t filename = .ok data) ∨
      ∃ e e', parse s filename = .error e ∧ parse t filename = .error e' ∧
        SameError s t filename e e' := by
  cases hs : parse s filename with
  | ok data =>
    rw [parse_eq_ok, h, ← parse_eq_ok] at hs
    exact Or.inl ⟨data, rfl, hs⟩
  | error e =>
    right
    rw [parse_eq_run] at hs ⊢
    rcases Progress.run_eq_error.mp hs with
      ⟨before, token, after, state, why, htokens, hleads, hstep, rfl⟩ | ⟨state, hleads, hne, rfl⟩
    · obtain ⟨before', token', after', htokens', hbefore, hlexeme⟩ :=
        exists_split_of_lexemes (h.symm.trans (congrArg _ htokens))
      have hlength : before'.length = before.length := by
        simpa using congrArg List.length hbefore
      have htoken : (tokenize s false)[before.length]? = some token := by
        simp [htokens]
      have htoken' : (tokenize t false)[before.length]? = some token' := by
        simp [htokens', ← hlength]
      rw [← hbefore] at hleads
      rw [← hlexeme] at hstep
      refine ⟨_, _, rfl, Progress.run_eq_error.mpr (Or.inl ?_),
        sameError_of_refused htoken htoken' hlexeme why⟩
      exact ⟨before', token', after', state, why, htokens', hleads, hstep, rfl⟩
    · rw [h] at hleads
      exact ⟨_, _, rfl, Progress.run_eq_error.mpr (Or.inr ⟨state, hleads, hne, rfl⟩),
        sameError_of_pending _⟩

/-- A comment and a line feed before the closer move the error, which stays at the closer. -/
theorem parse_eq_of_lexemes_comment :
    (tokenize "(a .)".toList false).map Token.lexeme =
      (tokenize "(a;b\n . )".toList false).map Token.lexeme ∧
    parse "(a .)".toList = .error (.source
      ⟨.unexpected "an expression".toList "\")\"".toList, defaultFilename, ⟨1, 5⟩⟩) ∧
    parse "(a;b\n . )".toList = .error (.source
      ⟨.unexpected "an expression".toList "\")\"".toList, defaultFilename, ⟨2, 4⟩⟩) ∧
    SameError "(a .)".toList "(a;b\n . )".toList defaultFilename
      (.source ⟨.unexpected "an expression".toList "\")\"".toList, defaultFilename, ⟨1, 5⟩⟩)
      (.source ⟨.unexpected "an expression".toList "\")\"".toList, defaultFilename, ⟨2, 4⟩⟩) := by
  have h : (tokenize "(a .)".toList false).map Token.lexeme =
      (tokenize "(a;b\n . )".toList false).map Token.lexeme := by
    decide +kernel
  have he : parse "(a .)".toList = .error (.source
      ⟨.unexpected "an expression".toList "\")\"".toList, defaultFilename, ⟨1, 5⟩⟩) := by
    decide +kernel
  have he' : parse "(a;b\n . )".toList = .error (.source
      ⟨.unexpected "an expression".toList "\")\"".toList, defaultFilename, ⟨2, 4⟩⟩) := by
    decide +kernel
  rcases parse_eq_of_lexemes h defaultFilename with ⟨data, hdata, -⟩ | ⟨e, e', hs, ht, hsame⟩
  · rw [he] at hdata
    cases hdata
  · obtain rfl := Except.error.inj (he.symm.trans hs)
    obtain rfl := Except.error.inj (he'.symm.trans ht)
    exact ⟨h, he, he', hsame⟩

end SExpr
