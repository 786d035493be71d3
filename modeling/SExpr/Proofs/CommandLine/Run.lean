import SExpr.CommandLine.Run
import SExpr.Proofs.Files.Channel

/-!
# Runs on one source

An operand with flags behind it is accepted as these flags ask for. A run that returns zero prints
all its lines, and the lines of an output can be told apart.
-/
namespace SExpr.CommandLine

variable {disk : Disk} {input : List UInt8} {path : Text} {options : Options}
  {texts texts' : List Text}

/-! ## Arguments -/

theorem ne_separator_of_operand (h : classify path = .ok .operand) : path ≠ separator := by
  rintro rfl
  revert h
  decide

theorem classify_long (f : Flag) : classify f.long = .ok (.flag f none) := by
  cases f <;> decide

theorem long_ne_separator (f : Flag) : f.long ≠ separator := by
  cases f <;> decide

theorem foldlM_take_flags {flags : List Flag} (h : Flag.help ∉ flags) (p : Progress) :
    ∃ adjacent, ((flags.map Flag.long).zip (flags.map (Word.flag · none))).foldlM
      (fun p w => p.take w.1 w.2) p =
        (.ok { p with adjacent, flags := p.flags ++ flags } : Except Stop Progress) := by
  induction flags generalizing p with
  | nil =>
    refine ⟨p.adjacent, ?_⟩
    rw [List.append_nil]
    rfl
  | cons f flags ih =>
    have hf : f ≠ .help := by
      rintro rfl
      exact h List.mem_cons_self
    have htake : p.take f.long (.flag f none) =
        .ok { p with adjacent := false, flags := p.flags ++ [f] } := by
      cases f <;> first | rfl | exact absurd rfl hf
    obtain ⟨adjacent, hrest⟩ := ih (fun hmem => h (List.mem_cons_of_mem _ hmem))
      { p with adjacent := false, flags := p.flags ++ [f] }
    refine ⟨adjacent, ?_⟩
    rw [List.map_cons, List.map_cons, List.zip_cons_cons, List.foldlM_cons, htake]
    rw [List.append_assoc] at hrest
    exact hrest

theorem mapM_classify_flags (flags : List Flag) :
    (flags.map Flag.long).mapM classify = .ok (flags.map (Word.flag · none)) := by
  induction flags with
  | nil => rfl
  | cons f flags ih =>
    rw [List.map_cons, List.mapM_cons, classify_long, ih]
    rfl

/-- An operand with flags behind it is the source to read, and the flags are set. -/
theorem parseArguments_operand (hpath : classify path = .ok .operand) (flags : List Flag)
    (hflags : Flag.help ∉ flags) :
    parseArguments (path :: flags.map Flag.long) =
      .ok { input := path, tokens := flags.contains .tokens, trivia := flags.contains .trivia,
            verbose := flags.contains .verbose } := by
  have hbefore : (path :: flags.map Flag.long).takeWhile (· ≠ separator) =
      path :: flags.map Flag.long := by
    rw [List.takeWhile_eq_self_iff]
    simp [ne_separator_of_operand hpath, long_ne_separator]
  have hwords : (path :: flags.map Flag.long).mapM classify =
      .ok (.operand :: flags.map (Word.flag · none)) := by
    rw [List.mapM_cons, hpath, mapM_classify_flags]
    rfl
  obtain ⟨adjacent, hfold⟩ := foldlM_take_flags hflags { operand := some path, adjacent := true }
  have htaken : ((path :: flags.map Flag.long).zip
      (.operand :: flags.map (Word.flag · none))).foldlM (fun p w => p.take w.1 w.2) {} =
        (.ok { operand := some path, adjacent, flags } : Except Stop Progress) := by
    rw [List.zip_cons_cons, List.foldlM_cons]
    exact hfold
  unfold parseArguments
  dsimp only
  rw [hbefore, hwords]
  dsimp only
  rw [htaken, List.drop_length]
  rfl

theorem parseArguments_single :
    parseArguments [path] = .ok options ↔
      classify path = .ok .operand ∧ options = { input := path } := by
  constructor
  · intro h
    by_cases hseparator : path = separator
    · subst hseparator
      cases h
    · have hbefore : [path].takeWhile (· ≠ separator) = [path] := by
        simp [hseparator]
      unfold parseArguments at h
      dsimp only at h
      rw [hbefore, List.mapM_cons] at h
      cases hword : classify path with
      | error e =>
        rw [hword] at h
        cases h
      | ok word =>
        rw [hword] at h
        rcases word with _ | ⟨f, _ | value⟩ | _
        · cases h
          exact ⟨rfl, rfl⟩
        · cases f <;> cases h
        · cases h
        · cases h
  · rintro ⟨hpath, rfl⟩
    exact parseArguments_operand hpath [] List.not_mem_nil

theorem respond_flags (hpath : classify path = .ok .operand) (flags : List Flag)
    (hflags : Flag.help ∉ flags) :
    respond (path :: flags.map Flag.long) disk input =
      run { input := path, tokens := flags.contains .tokens, trivia := flags.contains .trivia,
            verbose := flags.contains .verbose } disk input := by
  rw [respond, parseArguments_operand hpath flags hflags]

/-! ## Runs that succeed -/

theorem printLines_ok {ε : Type} (texts : List Text) :
    printLines (texts.map .ok : List (Except ε Text)) = (lines texts, .ok ()) := by
  induction texts with
  | nil => rfl
  | cons t texts ih =>
    rw [List.map_cons, printLines, ih]
    simp [lines]

theorem exists_of_printLines {prints : List (Except CountError Text)}
    (h : (printLines prints).2 = .ok ()) : ∃ texts : List Text, prints = texts.map .ok := by
  induction prints with
  | nil => exact ⟨[], rfl⟩
  | cons first more ih =>
    cases first with
    | error e => cases h
    | ok t =>
      obtain ⟨texts, rfl⟩ := ih h
      exact ⟨t :: texts, rfl⟩

theorem run_of_gather {log : Text}
    (h : gather options disk input = (.ok (texts.map .ok), log)) :
    run options disk input = { ending := .returned 0, output := lines texts, errors := log } := by
  rw [run, h]
  dsimp only
  rw [printLines_ok]
  rfl

theorem ending_conclude_error (options : Options) (output log : Text) (e : SessionError) :
    (conclude options output log (.error e)).ending = .returned 1 ∨
      (conclude options output log (.error e)).ending = .raised e := by
  unfold conclude
  dsimp only
  split
  · exact Or.inl rfl
  · exact Or.inr rfl

theorem ending_conclude_error_ne (options : Options) (output log : Text) (e : SessionError) :
    (conclude options output log (.error e)).ending ≠ .returned 0 := by
  rcases ending_conclude_error options output log e with h | h <;> simp [h]

/-- A run returns zero if what it is to print can be gathered and printed, and only then. -/
theorem run_returned_zero_iff :
    (run options disk input).ending = .returned 0 ↔
      ∃ texts : List Text, (gather options disk input).1 = .ok (texts.map .ok) := by
  cases hgather : gather options disk input with
  | mk answer log =>
    constructor
    · intro h
      rw [run, hgather] at h
      cases answer with
      | error e => exact absurd h (ending_conclude_error_ne options [] log e)
      | ok prints =>
        dsimp only at h
        cases hprinted : (printLines prints).2 with
        | error e =>
          rw [hprinted] at h
          exact absurd h (ending_conclude_error_ne options _ log _)
        | ok =>
          obtain ⟨texts, rfl⟩ := exists_of_printLines hprinted
          exact ⟨texts, rfl⟩
    · rintro ⟨texts, rfl⟩
      rw [run_of_gather hgather]

theorem ending_outcome_ne (stop : Stop) : stop.outcome.ending ≠ .returned 0 := by
  cases stop <;> simp [Stop.outcome]

/-! ## Lines -/

theorem lines_cons (t : Text) (texts : List Text) :
    lines (t :: texts) = t ++ '\n' :: lines texts := by
  simp [lines]

theorem lines_eq_intercalate (texts : List Text) :
    lines texts = ['\n'].intercalate (texts ++ [[]]) := by
  induction texts with
  | nil => rfl
  | cons t texts ih =>
    rw [lines_cons, ih]
    cases texts <;> simp [List.intercalate_cons_cons]

theorem splitOn_lines (h : ∀ t ∈ texts, t.IsLine) : (lines texts).splitOn '\n' = texts ++ [[]] := by
  rw [lines_eq_intercalate]
  apply List.splitOn_intercalate
  · intro t ht hmem
    rcases List.mem_append.mp ht with ht | ht
    · exact (h t ht '\n' hmem).2 rfl
    · rw [List.mem_singleton.mp ht] at hmem
      exact absurd hmem List.not_mem_nil
  · simp

theorem eq_of_lines_eq (h : ∀ t ∈ texts, t.IsLine) (h' : ∀ t ∈ texts', t.IsLine)
    (heq : lines texts = lines texts') : texts = texts' := by
  have hsplit := splitOn_lines h
  rw [heq, splitOn_lines h'] at hsplit
  exact (List.append_cancel_right hsplit).symm

end SExpr.CommandLine
