import SExpr.Proofs.CommandLine.NormalForm
import SExpr.Proofs.Reading.Failure

/-!
# Runs on a text

A run on a source that can be decoded prints the data, or it reports the fault of a token of the
text or of its end and returns one. Only a count that has too many digits is not reported.

All of this takes for granted that there is room for the nested calls that read and print the data.
A run without this room is one of `runWithin`, and stops without a report.
-/
namespace SExpr.CommandLine

variable {disk : Disk} {input bytes : List UInt8} {path text digits : Text} {data : List Datum}

theorem respond_of_parse (hpath : classify path = .ok .operand)
    (hsupplies : Supplies disk input path bytes) (hdecode : decodeSource bytes = .ok text)
    (hparse : parse text (sourceName path) = .ok data) :
    respond [path] disk input =
      { ending := .returned 0, output := lines (data.map Datum.source) } :=
  respond_of_reads hpath ⟨_, loadSource_of_decode hsupplies hdecode, hparse⟩

theorem respond_of_parse_error {e : ReadError} (hpath : classify path = .ok .operand)
    (hsupplies : Supplies disk input path bytes) (hdecode : decodeSource bytes = .ok text)
    (hparse : parse text (sourceName path) = .error e) :
    respond [path] disk input = conclude { input := path } [] [] (.error (.read e)) := by
  have hread : (({ input } : Session).readPath disk path).1 = .error (.read e) := by
    rw [Session.readPath_fst, loadSource_of_decode hsupplies hdecode]
    simp [Except.mapError, Except.bind, hparse]
  have hrun : respond [path] disk input = run { input := path } disk input :=
    respond_flags hpath [] List.not_mem_nil
  rw [hrun, run, gather_data, hread]
  rfl

/-- The way in which reading a text ends decides what a run on the text shows. -/
theorem respond_reports (source filename : Text) :
    ((∃ data, parse source filename = .ok data) ∨
      (∃ e token, parse source filename = .error (.source e) ∧
        (token ∈ tokenize source ∨ token = .endOf source) ∧ token.IsFault filename e) ∨
      ∃ token ∈ tokenize source, token.kind = .ellipsis ∧
        CountError.digitLimit < token.text.countP Char.isDigit ∧
        parse source filename = .error (.count (.tooLong (token.text.countP Char.isDigit)))) ∧
    ∀ path disk input bytes, classify path = .ok .operand → Supplies disk input path bytes →
      decodeSource bytes = .ok source →
      (∀ data, parse source (sourceName path) = .ok data →
        respond [path] disk input =
          { ending := .returned 0, output := lines (data.map Datum.source) }) ∧
      (∀ e, parse source (sourceName path) = .error (.source e) →
        respond [path] disk input =
          { ending := .returned 1, errors := "Syntax error: ".toList ++ e.message ++ ['\n'] }) ∧
      (∀ e, parse source (sourceName path) = .error (.count e) →
        respond [path] disk input = { ending := .raised (.read (.count e)) }) ∧
      (CountsShort (tokenize source) →
        (respond [path] disk input).ending = .returned 0 ∨
          (respond [path] disk input).ending = .returned 1) := by
  refine ⟨?_, ?_⟩
  · cases hparse : parse source filename with
    | ok data => exact Or.inl ⟨data, rfl⟩
    | error e =>
      cases failsWith_of_parse hparse with
      | fault htoken hfault => exact Or.inr (Or.inl ⟨_, _, rfl, htoken, hfault⟩)
      | count htoken hkind hlong => exact Or.inr (Or.inr ⟨_, htoken, hkind, hlong, rfl⟩)
  · intro path disk input bytes hpath hsupplies hdecode
    have hok : ∀ data, parse source (sourceName path) = .ok data →
        respond [path] disk input =
          { ending := .returned 0, output := lines (data.map Datum.source) } :=
      fun data => respond_of_parse hpath hsupplies hdecode
    have hfault : ∀ e, parse source (sourceName path) = .error (.source e) →
        respond [path] disk input =
          { ending := .returned 1, errors := "Syntax error: ".toList ++ e.message ++ ['\n'] } :=
      fun e => respond_of_parse_error hpath hsupplies hdecode
    refine ⟨hok, hfault, fun e => respond_of_parse_error hpath hsupplies hdecode, ?_⟩
    intro hcounts
    cases hparse : parse source (sourceName path) with
    | ok data =>
      rw [hok data hparse]
      exact Or.inl rfl
    | error e =>
      obtain ⟨fault, rfl⟩ := (failsWith_of_parse hparse).exists_fault hcounts
      rw [hfault fault hparse]
      exact Or.inr rfl

/-- A list that is never closed is reported at the end of its text. -/
theorem respond_reports_unclosed :
    parse "(a".toList ['f'] =
      .error (.source ⟨.unexpected "\")\"".toList "end of input".toList, ['f'], ⟨1, 3⟩⟩) ∧
    respond [['f']] (fun _ => .ok (Text.Utf8.encode "(a".toList)) [] =
      { ending := .returned 1,
        errors := "Syntax error: f:1:3: expected \")\", found end of input\n".toList } := by
  have hparse : parse "(a".toList ['f'] =
      .error (.source ⟨.unexpected "\")\"".toList "end of input".toList, ['f'], ⟨1, 3⟩⟩) := by
    decide +kernel
  have hsupplies : Supplies (fun _ => .ok (Text.Utf8.encode "(a".toList)) [] ['f']
      (Text.Utf8.encode "(a".toList) :=
    supplies_file (by decide) (by decide) rfl
  obtain ⟨-, hrun⟩ := respond_reports "(a".toList ['f']
  obtain ⟨-, hfault, -⟩ := hrun ['f'] _ _ _ rfl hsupplies (decodeSource_encode _)
  refine ⟨hparse, (hfault _ hparse).trans ?_⟩
  decide +kernel

/-- A run on a list whose ellipsis has too many digits raises the error of the count. -/
theorem respond_long_count (hdigits : Lexeme.IsRun .digit digits)
    (hlong : CountError.digitLimit < digits.length) (hpath : classify path = .ok .operand)
    (hsupplies : Supplies disk input path
      (Text.Utf8.encode ("(a ..".toList ++ digits ++ [')']))) :
    respond [path] disk input =
      { ending := .raised (.read (.count (.tooLong digits.length))) } := by
  have hreturn : ∀ c ∈ "(a ..".toList ++ digits ++ [')'], c ≠ '\r' := by
    simp only [List.forall_mem_append]
    refine ⟨⟨by simp, fun c hc => ?_⟩, by simp⟩
    rintro rfl
    exact absurd (hdigits.2 _ hc) (by decide)
  have hdecode := decodeSource_encode ("(a ..".toList ++ digits ++ [')'])
  rw [Text.unifyNewlines_of_forall_ne hreturn] at hdecode
  exact respond_of_parse_error hpath hsupplies hdecode (parse_long_count hdigits hlong _)

/-- A list with an ellipsis of 4301 digits is neither read nor reported as a fault of the text. -/
theorem respond_unreported_count :
    let source := "(a ..".toList ++ (List.replicate 4300 '0' ++ ['3']) ++ [')']
    ¬ ((∃ data, parse source ['f'] = .ok data) ∨ ∃ e, parse source ['f'] = .error (.source e)) ∧
      ∃ e, (respond [['f']] (fun _ => .ok (Text.Utf8.encode source)) []).ending = .raised e := by
  have hdigits : ∀ zeros, Lexeme.IsRun .digit (List.replicate zeros '0' ++ ['3']) := by
    intro zeros
    refine ⟨by simp, List.forall_mem_append.mpr ⟨?_, List.forall_mem_singleton.mpr rfl⟩⟩
    intro c hc
    rw [List.eq_of_mem_replicate hc]
    rfl
  have hlong : CountError.digitLimit < (List.replicate 4300 '0' ++ ['3']).length := by
    rw [List.length_append, List.length_replicate]
    decide
  intro source
  have hparse := parse_long_count (hdigits 4300) hlong ['f']
  have hsupplies : Supplies (fun _ => .ok (Text.Utf8.encode source)) [] ['f']
      (Text.Utf8.encode source) :=
    supplies_file (by decide) (by decide) rfl
  have hrun := respond_long_count (hdigits 4300) hlong rfl hsupplies
  refine ⟨?_, _, congrArg Outcome.ending hrun⟩
  rintro (⟨data, hdata⟩ | ⟨e, he⟩)
  · cases hparse.symm.trans hdata
  · cases hparse.symm.trans he

end SExpr.CommandLine
