import SExpr.Proofs.Datum.Lexemes
import SExpr.Proofs.Reading.Places

/-!
# Why a text is not read

Reading a text fails at one of its tokens or at its end, with an error that names the place. The
only other failure is that of an ellipsis in the text with more digits than a count may have. That
one names no place. The depth of the data is no reason to fail: it is assumed that there is room for
the nested calls of reading, of which `parseWithin` has only so many.
-/
namespace SExpr

variable {source filename digits : Text} {token : Token} {p : Pending} {state : Progress}
  {why : Refusal} {e : ReadError}

/-! ## Refused counts -/

namespace Pending

variable {b : Bracket} {read : List Datum} {frames : List Frame} {e : CountError} {taken : Bool}

theorem count_of_extend (h : extend token b read frames = .refuse (.count e) taken) :
    token.kind = .ellipsis ∧ repeatCount token.text = .error e := by
  unfold extend at h
  split at h
  · split_ifs at h
    · exact absurd h (fill_ne_refuse _ _)
    · cases h
  · cases h
  · split_ifs at h
    cases h
  · rename_i hellipsis
    split_ifs at h
    · cases h
    · split at h
      · cases h
      · rename_i hcount
        cases h
        exact ⟨hellipsis, hcount⟩
  · obtain ⟨-, hwhy, -⟩ := start_refuse h
    cases hwhy

theorem count_of_feed (h : p.feed token = .refuse (.count e) taken) :
    token.kind = .ellipsis ∧ repeatCount token.text = .error e := by
  unfold feed at h
  split_ifs at h
  · cases h
  · split at h
    · split_ifs at h
      · exact absurd h (fill_ne_refuse _ _)
      · cases h
    · exact count_of_extend h
    · obtain ⟨-, hwhy, -⟩ := start_refuse h
      cases hwhy

end Pending

/-! ## The error of a text -/

/-- How reading a text fails: with a fault of one of its tokens or of its end, or with a count that
has too many digits. -/
inductive FailsWith (source filename : Text) : ReadError → Prop
  | fault {token : Token} {e : SourceError} : token ∈ tokenize source ∨ token = .endOf source →
      token.IsFault filename e → FailsWith source filename (.source e)
  | count {token : Token} : token ∈ tokenize source → token.kind = .ellipsis →
      CountError.digitLimit < token.text.countP Char.isDigit →
      FailsWith source filename (.count (.tooLong (token.text.countP Char.isDigit)))

theorem failsWith_of_refused (hmem : token ∈ tokenize source false)
    (h : state.step token.lexeme = .error why) :
    FailsWith source filename (why.error filename token) := by
  obtain ⟨taken, hrefuse⟩ := Progress.exists_refuse_of_step h
  have hall : token ∈ tokenize source := (List.mem_filter.mp hmem).1
  have htells : TellsOf filename [token] (.error (why.error filename token)) :=
    tellsOf_refusal hrefuse (List.mem_singleton_self token)
  cases why with
  | unknownText | wanted w =>
    obtain ⟨token', htoken, hfault⟩ := htells
    obtain rfl := List.mem_singleton.mp htoken
    exact .fault (Or.inl hall) hfault
  | count e =>
    obtain ⟨hkind, hcount⟩ := Pending.count_of_feed hrefuse
    rw [repeatCount_of_mem_tokenize hmem hkind] at hcount
    split_ifs at hcount with hlong
    cases hcount
    exact .count hall hkind hlong

/-- Reading a text fails in no other way. -/
theorem failsWith_of_parse (h : parse source filename = .error e) :
    FailsWith source filename e := by
  rw [parse_eq_run] at h
  rcases Progress.run_eq_error.mp h with
    ⟨before, token, after, state, why, htokens, -, hstep, rfl⟩ | ⟨state, -, -, rfl⟩
  · have hmem : token ∈ tokenize source false := by
      rw [htokens]
      exact List.mem_append_cons_self
    exact failsWith_of_refused hmem hstep
  · exact .fault (Or.inr rfl) (.unexpected _)

theorem FailsWith.exists_fault (h : FailsWith source filename e)
    (hcounts : CountsShort (tokenize source)) : ∃ fault, e = .source fault := by
  cases h with
  | fault => exact ⟨_, rfl⟩
  | count hmem hkind hlong => exact absurd hlong (Nat.not_lt.mpr (hcounts _ hmem hkind))

/-! ## A count with too many digits -/

theorem cut_list_with_count (hdigits : Lexeme.IsRun .digit digits) :
    Lexeme.Cut ("(a ..".toList ++ digits ++ [')'])
      [(.opener .round, ['(']), (.symbol, ['a']), (.whitespace, [' ']),
        (.ellipsis, '.' :: '.' :: digits), (.closer .round, [')'])] := by
  have hsymbol : Lexeme.Is .symbol ['a'] :=
    Lexeme.isSymbolName_cons.mpr ⟨⟨by decide, by simp⟩, by simp⟩
  have hspace : Lexeme.Is .whitespace [' '] := Lexeme.isRun_singleton.mpr rfl
  have hellipsis : Lexeme.Is .ellipsis ('.' :: '.' :: digits) := Or.inr ⟨digits, hdigits, rfl⟩
  have hcloser : Lexeme.IsLongest (.closer .round) [')'] [] := Lexeme.isLongest_single rfl
  have hcount := (Lexeme.IsLongest.of_delimiter hellipsis rfl (delimited_cons rfl _)).cut
    (hcloser.cut .nil)
  have hitem := (Lexeme.IsLongest.of_delimiter hsymbol rfl (delimited_cons rfl _)).cut
    ((Lexeme.isLongest_whitespace_iff.mpr ⟨hspace, by simp⟩).cut hcount)
  exact (Lexeme.isLongest_single (c := '(') rfl).cut hitem

/-- A list that ends in an ellipsis is not read if the ellipsis has too many digits. -/
theorem parse_long_count (hdigits : Lexeme.IsRun .digit digits)
    (hlong : CountError.digitLimit < digits.length) (filename : Text) :
    parse ("(a ..".toList ++ digits ++ [')']) filename =
      .error (.count (.tooLong digits.length)) := by
  have hlexemes := map_lexeme_tokenize (cut_list_with_count hdigits)
  obtain ⟨before, tail, htokens, hbefore, htail⟩ := List.map_eq_append_iff.mp
    (show _ = [(Kind.opener .round, ['(']), (.symbol, ['a'])] ++
      [(.ellipsis, '.' :: '.' :: digits), (.closer .round, [')'])] from hlexemes)
  obtain ⟨token, after, rfl, htoken, -⟩ := List.map_eq_cons_iff.mp htail
  have hcount : repeatCount ('.' :: '.' :: digits) = .error (.tooLong digits.length) := by
    have hdrop : ('.' :: '.' :: digits).dropWhile (· = '.') = digits := dropWhile_point hdigits.2
    rw [repeatCount_digits hdigits.2 hdrop, if_pos hlong]
  rw [parse_eq_run, Progress.run_eq_error]
  refine Or.inl ⟨before, token, after, ⟨[], .datum [.items .round [.symbol ['a']]]⟩,
    .count (.tooLong digits.length), htokens, ?_, ?_, rfl⟩
  · rw [hbefore]
    rfl
  · rw [htoken]
    simp [Progress.step, Pending.feed, Pending.extend, Kind.isBlank, hcount]

end SExpr
