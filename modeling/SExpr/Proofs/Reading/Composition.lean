import SExpr.Proofs.Reading.Progress
import SExpr.Proofs.Stream.Seam

/-!
# Reading texts one after the other

Behind a text that was read, with a line feed between, another text is read as it is alone: its data
follow those of the first, and its error is as many lines further down as the first text takes.
-/
namespace SExpr

variable {s filename : Text} {data data' : List Datum}

/-! ## Places further down -/

/-- The place `n` lines below, in the same column. -/
def Position.down (n : Nat) (p : Position) : Position :=
  ⟨p.line + n, p.column⟩

def Token.down (n : Nat) (token : Token) : Token :=
  ⟨token.kind, token.text, token.position.down n⟩

def ReadError.down (n : Nat) : ReadError → ReadError
  | source e => source { e with position := e.position.down n }
  | e => e

variable (n : Nat)

namespace Position

theorem after_down (p : Position) (c : Char) : (p.down n).after c = (p.after c).down n := by
  unfold after down
  split
  · simp [Nat.add_right_comm]
  · rfl

theorem afterText_down (p : Position) (t : Text) :
    (p.down n).afterText t = (p.afterText t).down n := by
  induction t generalizing p with
  | nil => rfl
  | cons c t ih => rw [afterText_cons, afterText_cons, after_down, ih]

theorem afterText_append_newline (s : Text) :
    start.afterText (s ++ ['\n']) = start.down (s.count '\n' + 1) := by
  have hcount : (s ++ ['\n']).count '\n' = s.count '\n' + 1 := by simp
  have hcolumn : (s ++ ['\n']).reverse.takeWhile (· ≠ '\n') = [] := by simp
  rw [afterText_start, following, hcount, hcolumn]
  rfl

end Position

namespace Token

theorem place_down (p : Position) (L : List (Kind × Text)) :
    place (p.down n) L = (place p L).map (down n) := by
  induction L generalizing p with
  | nil => rfl
  | cons lexeme L ih => rw [place, place, Position.afterText_down, ih, List.map_cons, down]

theorem withoutBlanks_down (tokens : List Token) :
    withoutBlanks (tokens.map (down n)) = (withoutBlanks tokens).map (down n) := by
  rw [withoutBlanks, List.filter_map]
  rfl

theorem endOf_append_newline (s rest : Text) :
    endOf (s ++ '\n' :: rest) = (endOf rest).down (s.count '\n' + 1) := by
  have hsplit : s ++ '\n' :: rest = s ++ ['\n'] ++ rest := by simp
  rw [endOf, hsplit, Position.afterText_append, Position.afterText_append_newline,
    Position.afterText_down]
  rfl

end Token

theorem Refusal.error_down (why : Refusal) (token : Token) :
    why.error filename (token.down n) = (why.error filename token).down n := by
  cases why <;> rfl

/-! ## Reading further down and further on -/

namespace Progress

/-- Reading tokens further down gives the same data, or the same error further down. -/
theorem run_down (last : Token) (state : Progress) (tokens : List Token) :
    state.run filename (last.down n) (tokens.map (Token.down n)) =
      (state.run filename last tokens).mapError (ReadError.down n) :=
  run_map (f := Token.down n) (F := ReadError.down n) (fun _ => rfl) (Refusal.error_down n) last
    state tokens

theorem step_append (p : Pending) (l : Kind × Text) : step ⟨data ++ data', p⟩ l =
    (step ⟨data, p⟩ l).map fun state => ⟨state.data ++ data', state.pending⟩ := by
  unfold step
  dsimp only
  cases p.feed ⟨l.1, l.2, {}⟩ <;> rfl

theorem run_append_data (filename : Text) (last : Token) (data' : List Datum) (state : Progress)
    (tokens : List Token) : run filename last ⟨state.data ++ data', state.pending⟩ tokens =
      (state.run filename last tokens).map (data'.reverse ++ ·) := by
  induction tokens generalizing state with
  | nil =>
    rw [run, run, finish, finish]
    split
    · simp [Except.map]
    · rfl
  | cons token tokens ih =>
    rw [run, run, step_append]
    cases state.step token.lexeme with
    | ok state' => exact ih state'
    | error why => rfl

end Progress

/-- Behind a text that was read, a text is read as it is alone, but further down. -/
theorem parse_append_newline {name : Text} (h : parse s name = .ok data) (rest filename : Text) :
    parse (s ++ '\n' :: rest) filename =
      ((parse rest filename).mapError (ReadError.down (s.count '\n' + 1))).map (data ++ ·) := by
  obtain ⟨L, hL⟩ := Lexeme.exists_cut rest
  have htokens : tokenize (s ++ '\n' :: rest) false =
      tokenize s false ++ (tokenize rest false).map (Token.down (s.count '\n' + 1)) := by
    rw [tokenize_append_newline s hL, Position.afterText_append_newline, Token.place_down,
      Token.withoutBlanks_down, tokenize_false_eq hL]
  have hdata := Progress.run_append_data filename ((Token.endOf rest).down (s.count '\n' + 1))
    data.reverse {} ((tokenize rest false).map (Token.down (s.count '\n' + 1)))
  rw [parse_eq_run, htokens, Token.endOf_append_newline, Progress.run_append (parse_eq_ok.mp h),
    parse_eq_run rest, ← Progress.run_down]
  rwa [List.reverse_reverse] at hdata

/-- Texts compose: behind a text that was read and a line feed, a text adds its data, or it fails
with the same error a line further down for the line feed and for each one in the first text. -/
theorem parse_append_of_parse {name : Text} (h : parse s name = .ok data) (rest filename : Text) :
    (∀ data', parse rest filename = .ok data' →
      parse (s ++ '\n' :: rest) filename = .ok (data ++ data')) ∧
    (∀ e, parse rest filename = .error (.source e) →
      parse (s ++ '\n' :: rest) filename = .error (.source
        { e with position := ⟨e.position.line + 1 + s.count '\n', e.position.column⟩ })) ∧
    ∀ e, parse rest filename = .error (.count e) →
      parse (s ++ '\n' :: rest) filename = .error (.count e) := by
  have hline : ∀ line, line + 1 + s.count '\n' = line + (s.count '\n' + 1) := by
    intro line
    omega
  rw [parse_append_newline h]
  refine ⟨fun data' hdata' => ?_, fun e he => ?_, fun e he => ?_⟩
  · rw [hdata']
    rfl
  · rw [he, hline]
    rfl
  · rw [he]
    rfl

/-- A comment and a line feed at the end of the first text do not reach into the second. -/
theorem parse_append_of_parse_comment :
    parse "a ; b\n".toList = .ok [.symbol ['a']] ∧
    parse "(b\n]".toList = .error (.source ⟨.unexpected "\")\"".toList "\"]\"".toList,
      defaultFilename, ⟨2, 1⟩⟩) ∧
    parse ("a ; b\n".toList ++ '\n' :: "(b\n]".toList) = .error (.source
      ⟨.unexpected "\")\"".toList "\"]\"".toList, defaultFilename, ⟨4, 1⟩⟩) := by
  have h : parse "a ; b\n".toList = .ok [.symbol ['a']] := by
    decide +kernel
  have he : parse "(b\n]".toList = .error (.source ⟨.unexpected "\")\"".toList "\"]\"".toList,
      defaultFilename, ⟨2, 1⟩⟩) := by
    decide +kernel
  exact ⟨h, he, (parse_append_of_parse h _ _).2.1 _ he⟩

end SExpr
