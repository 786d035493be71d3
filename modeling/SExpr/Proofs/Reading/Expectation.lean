import SExpr.Proofs.Reading.Removed
import SExpr.Proofs.Reading.Repair
import SExpr.Proofs.Reading.Replacement

/-!
# What an error expects

What is pending tells what may stand next, and an error asks for such a thing: for the closer of the
innermost bracket that is still open, or for an expression where any expression may stand. So what
was expected can be put in at the place of the error, and the text can be completed behind it.
-/
namespace SExpr

/-- The brackets that are open behind a lexeme of the given kind, innermost first. A closer closes
the innermost one if it is of the same family. -/
def Kind.bracketsBehind (opened : List Bracket) : Kind → List Bracket
  | opener b => b :: opened
  | closer b => if opened.head? = some b then opened.tail else opened
  | _ => opened

/-- The brackets that lexemes leave open, innermost first. -/
def openBrackets (L : List (Kind × Text)) : List Bracket :=
  L.foldl (fun opened l => l.1.bracketsBehind opened) []

def Frame.bracket? : Frame → Option Bracket
  | .abbreviation _ => none
  | .items b _ | .tail b _ => some b

namespace Pending

def brackets : Pending → List Bracket
  | .datum frames => frames.filterMap Frame.bracket?
  | .closer b _ frames => b :: frames.filterMap Frame.bracket?

/-- What may stand next: the closer of the innermost list that has all its items or can do without
more of them, or an expression where a datum is needed. -/
def Admits : Pending → Wanted → Prop
  | .datum (.items b _ :: _), w => w = .expression ∨ w = .closer b
  | .datum _, w => w = .expression
  | .closer b _ _, w => w = .closer b

end Pending

/-- What is wanted is in its place at an offset of a text. A closer belongs to the innermost bracket
that the tokens before the offset leave open, and when it is put there on a line of its own, further
lines can complete the text. An expression may be any expression at all. -/
def IsWantedAt (source filename : Text) (o : Nat) : Wanted → Prop
  | .closer b =>
    tokenize (source.take o) <+: tokenize source ∧
      (openBrackets ((tokenize (source.take o)).map Token.lexeme)).head? = some b ∧
      ∃ more data,
        parse (source.take o ++ '\n' :: [b.closer] ++ '\n' :: more) filename = .ok data
  | .expression =>
    ∀ text name d, parse text name = .ok [d] → ∃ more data,
      parse (source.take o ++ '\n' :: text ++ '\n' :: more) filename = .ok data

variable {source filename s t : Text} {g g' : Progress} {l : Kind × Text} {L : List (Kind × Text)}
  {p : Pending} {b : Bracket} {w : Wanted} {frames : List Frame} {data : List Datum}

/-! ## Open brackets -/

namespace Progress

theorem brackets_complete (data : List Datum) (d : Datum) (frames : List Frame) :
    (complete data d frames).pending.brackets = frames.filterMap Frame.bracket? := by
  induction frames generalizing d with
  | nil => rfl
  | cons frame frames ih =>
    cases frame with
    | abbreviation a => exact ih _
    | items b read => rfl
    | tail b read => rfl

theorem Begins.brackets (h : Begins data frames l g) :
    g.pending.brackets = l.1.bracketsBehind (frames.filterMap Frame.bracket?) := by
  cases h with
  | @atom k t f hf =>
    rw [brackets_complete]
    cases k <;> simp [Form.ofAtom?, Kind.bracketsBehind] at hf ⊢
  | abbreviation a t => rfl
  | opener b t => rfl

theorem Ends.brackets {read : List Datum} (h : Ends data b read frames l g) :
    g.pending.brackets = l.1.bracketsBehind (b :: frames.filterMap Frame.bracket?) := by
  cases h with
  | closer t =>
    rw [brackets_complete]
    simp [Kind.bracketsBehind]
  | dot t => rfl
  | ellipsis => rfl

/-- A lexeme that is taken opens and closes the brackets around what is pending. -/
theorem brackets_step (h : g.step l = .ok g') :
    g'.pending.brackets = l.1.bracketsBehind g.pending.brackets := by
  by_cases hblank : l.1.isBlank = true
  · have hfeed : g.pending.feed ⟨l.1, l.2, {}⟩ = .more g.pending := Pending.feed_blank _ hblank
    have hstep : g.step l = .ok g := step_of_more hfeed
    obtain rfl := Except.ok.inj (hstep.symm.trans h)
    cases hk : l.1 <;> simp_all [Kind.isBlank, Kind.bracketsBehind]
  · have hl : l.1.isBlank = false := Bool.eq_false_iff.mpr hblank
    obtain ⟨data, frames | ⟨b, list, frames⟩⟩ := g
    · rcases (step_datum_iff hl).mp h with hb | ⟨b, read, outer, rfl, he⟩
      · exact hb.brackets
      · exact he.brackets
    · obtain ⟨hk, rfl⟩ := (step_closer_iff hl).mp h
      rw [brackets_complete, hk]
      simp [Kind.bracketsBehind, Pending.brackets]

theorem brackets_leads (h : g.Leads L g') :
    g'.pending.brackets =
      L.foldl (fun opened l => l.1.bracketsBehind opened) g.pending.brackets := by
  induction L generalizing g with
  | nil =>
    obtain rfl := leads_nil.mp h
    rfl
  | cons l L ih =>
    obtain ⟨g₁, hstep, hleads⟩ := leads_cons.mp h
    rw [ih hleads, brackets_step hstep, List.foldl_cons]

/-- The brackets around what is pending are those that the lexemes so far leave open. -/
theorem openBrackets_eq (h : Leads {} L g) : openBrackets L = g.pending.brackets :=
  (brackets_leads h).symm

end Progress

/-! ## What may stand next -/

namespace Pending

theorem admits_wanted (p : Pending) : p.Admits p.wanted := by
  rcases p with (_ | ⟨_ | _ | _, _⟩) | _ <;> simp [Admits, wanted]

theorem exists_frames_of_admits (h : p.Admits .expression) : ∃ frames, p = .datum frames := by
  cases p with
  | datum frames => exact ⟨frames, rfl⟩
  | closer b list frames => cases h

theorem admits_datum (frames : List Frame) : (datum frames).Admits .expression := by
  rcases frames with _ | ⟨_ | _ | _, _⟩ <;> simp [Admits]

theorem brackets_of_admits (h : p.Admits (.closer b)) : p.brackets.head? = some b := by
  rcases p with (_ | ⟨_ | ⟨b', read⟩ | _, frames⟩) | ⟨b', list, frames⟩ <;> simp [Admits] at h
  · rw [h]
    rfl
  · rw [h]
    rfl

variable {token : Token} {why : Refusal} {taken : Bool}

theorem admits_of_start (h : start token frames = .refuse (.wanted w) taken) :
    (datum frames).Admits w := by
  obtain ⟨-, hw, -⟩ := start_refuse h
  cases hw
  exact admits_datum frames

theorem admits_of_extend {read : List Datum}
    (h : extend token b read frames = .refuse (.wanted w) taken) :
    (datum (.items b read :: frames)).Admits w := by
  unfold extend at h
  split at h
  · split_ifs at h
    · exact absurd h (fill_ne_refuse _ _)
    · cases h
      exact Or.inr rfl
  · cases h
    exact Or.inr rfl
  · split_ifs at h
    cases h
    exact Or.inl rfl
  · split_ifs at h
    · cases h
      exact Or.inl rfl
    · split at h <;> cases h
  · exact admits_of_start h

theorem admits_of_feed (h : p.feed token = .refuse (.wanted w) taken) : p.Admits w := by
  unfold feed at h
  split_ifs at h
  · cases h
  · split at h
    · split_ifs at h
      · exact absurd h (fill_ne_refuse _ _)
      · cases h
        rfl
    · exact admits_of_extend h
    · exact admits_of_start h

end Pending

theorem Progress.admits_of_step (h : g.step l = .error (.wanted w)) : g.pending.Admits w := by
  unfold step at h
  split at h
  · cases h
  · cases h
  · rename_i why taken hfeed
    cases h
    exact Pending.admits_of_feed hfeed

theorem Progress.exists_step_closer (h : g.pending.Admits (.closer b)) :
    ∃ g', g.step (.closer b, [b.closer]) = .ok g' := by
  rcases g with ⟨data, (_ | ⟨_ | ⟨b', read⟩ | _, frames⟩) | ⟨b', list, frames⟩⟩ <;>
    simp [Pending.Admits] at h
  · subst h
    exact ⟨_, step_of_ends (.closer _)⟩
  · subst h
    exact ⟨_, (step_closer_iff rfl).mpr ⟨rfl, rfl⟩⟩

/-! ## Putting in what is wanted -/

theorem lexemes_closer (b : Bracket) :
    (tokenize [b.closer] false).map Token.lexeme = [(.closer b, [b.closer])] := by
  have hcut : Lexeme.Cut [b.closer] [(.closer b, [b.closer])] := cut_closer_cons b .nil
  rw [map_lexeme_tokenize hcut]
  rfl

theorem exists_parse_closer
    (hleads : Progress.Leads {} ((tokenize s false).map Token.lexeme) g)
    (h : g.pending.Admits (.closer b)) :
    ∃ more data, parse (s ++ '\n' :: [b.closer] ++ '\n' :: more) filename = .ok data := by
  obtain ⟨g', hstep⟩ := Progress.exists_step_closer h
  have hall : Progress.Leads {}
      ((tokenize (s ++ '\n' :: [b.closer]) false).map Token.lexeme) g' := by
    rw [map_lexeme_tokenize_append, lexemes_closer, Progress.leads_append]
    exact ⟨g, hleads, Progress.leads_cons.mpr ⟨g', hstep, Progress.leads_nil.mpr rfl⟩⟩
  exact exists_parse_append hall

theorem exists_parse_expression {name : Text} {d : Datum}
    (hleads : Progress.Leads {} ((tokenize s false).map Token.lexeme) g)
    (h : g.pending.Admits .expression) (hd : parse t name = .ok [d]) :
    ∃ more data, parse (s ++ '\n' :: t ++ '\n' :: more) filename = .ok data := by
  obtain ⟨f, hlexemes, rfl, hcounts⟩ := exists_form_of_parse hd
  obtain ⟨frames, hframes⟩ := Pending.exists_frames_of_admits h
  obtain ⟨data, p⟩ := g
  obtain rfl : p = .datum frames := hframes
  have hall : Progress.Leads {} ((tokenize (s ++ '\n' :: t) false).map Token.lexeme)
      (Progress.complete data f.value frames) := by
    rw [map_lexeme_tokenize_append, hlexemes, Progress.leads_append]
    exact ⟨_, hleads, f.leads_complete data frames hcounts⟩
  exact exists_parse_append hall

/-- What may stand next behind the tokens before an offset is in its place at the offset. -/
theorem isWantedAt_of_admits {o : Nat}
    (hbefore : tokenize (source.take o) <+: tokenize source)
    (hleads : Progress.Leads {} ((tokenize (source.take o) false).map Token.lexeme) g)
    (h : g.pending.Admits w) : IsWantedAt source filename o w := by
  cases w with
  | closer b =>
    refine ⟨hbefore, ?_, exists_parse_closer hleads h⟩
    have hall : Progress.Leads {} ((tokenize (source.take o)).map Token.lexeme) g :=
      (Progress.leads_withoutBlanks _).mp hleads
    rw [Progress.openBrackets_eq hall]
    exact Pending.brackets_of_admits h
  | expression =>
    intro text name d hd
    exact exists_parse_expression hleads h hd

/-- An error asks for a closer or for an expression, and what it asks for is in its place there. -/
theorem parse_error_isWantedAt {expected found name : Text} {place : Position}
    (h : parse source filename = .error (.source ⟨.unexpected expected found, name, place⟩)) :
    ∃ o ≤ source.length,
      (∀ o' ≤ source.length, Position.following (source.take o') = place ↔ o' = o) ∧
      ∃ w : Wanted, expected = w.describe ∧ IsWantedAt source filename o w := by
  rw [parse_eq_run] at h
  rcases Progress.run_eq_error.mp h with
    ⟨before, token, after, g, why, htokens, hleads, hstep, he⟩ | ⟨g, hleads, -, he⟩
  · cases why with
    | unknownText => cases he
    | count e => cases he
    | wanted w =>
      cases he
      obtain ⟨s, rest, hsource, -, hposition, hbefore, hs, -⟩ := exists_source_split htokens
      have htake : source.take s.length = s := by simp [hsource]
      have hle : s.length ≤ source.length := by simp [hsource]
      rw [← hs, ← htake] at hleads
      rw [← htake] at hbefore
      refine ⟨s.length, hle, ?_, w, rfl, ?_⟩
      · apply following_take_iff hle
        rw [htake, hposition]
      · exact isWantedAt_of_admits hbefore hleads (Progress.admits_of_step hstep)
  · cases he
    refine ⟨source.length, le_rfl, ?_, g.pending.wanted, rfl, ?_⟩
    · apply following_take_iff le_rfl
      rw [List.take_length]
      rfl
    · have hwhole : tokenize (source.take source.length) <+: tokenize source :=
        List.take_length ▸ List.prefix_rfl
      rw [← List.take_length (l := source)] at hleads
      exact isWantedAt_of_admits hwhole hleads g.pending.admits_wanted

/-- Behind the tail of an abbreviated list in square brackets, its own closer is asked for. -/
theorem parse_error_isWantedAt_tail :
    parse "(a '[b . c) d".toList = .error (.source ⟨.unexpected "\"]\"".toList "\")\"".toList,
      defaultFilename, ⟨1, 11⟩⟩) ∧
    ∃ o ≤ "(a '[b . c) d".toList.length, (∀ o' ≤ "(a '[b . c) d".toList.length,
        Position.following ("(a '[b . c) d".toList.take o') = ⟨1, 11⟩ ↔ o' = o) ∧
      ∃ w : Wanted, "\"]\"".toList = w.describe ∧
        IsWantedAt "(a '[b . c) d".toList defaultFilename o w := by
  have h : parse "(a '[b . c) d".toList = .error (.source ⟨.unexpected "\"]\"".toList
      "\")\"".toList, defaultFilename, ⟨1, 11⟩⟩) := by
    decide +kernel
  exact ⟨h, parse_error_isWantedAt h⟩

end SExpr
