import SExpr.Proofs.CommandLine.Run
import SExpr.Proofs.Datum.Print
import SExpr.Proofs.Datum.Settled

/-!
# Printed data are a normal form

What the command prints of a source can be read again and is printed alike, also where infinite
numbers are printed as names, which are symbols when they are read.
-/
namespace SExpr.CommandLine

open Text

variable {disk : Disk} {input : List UInt8} {path : Text} {data : List Datum}

/-! ## Lines of data -/

theorem exists_forms_lines (h : ∀ d ∈ data, WrittenAsForm d) :
    ∃ forms : List Form, forms.map Form.value = data ∧
      HasLexemes (lines (data.map Datum.source)) (forms.flatMap Form.lexemes) := by
  induction data with
  | nil => exact ⟨[], rfl, hasLexemes_nil⟩
  | cons d data ih =>
    obtain ⟨⟨f, hvalue, hform⟩, hdata⟩ := List.forall_mem_cons.mp h
    obtain ⟨forms, hvalues, hlexemes⟩ := ih hdata
    refine ⟨f :: forms, by simp [hvalue, hvalues], ?_⟩
    rw [List.map_cons, lines_cons, List.flatMap_cons]
    exact hform _ _ (hlexemes.whitespace rfl) (delimited_cons rfl _)

/-- Readable data are read back from their lines as the settled data. -/
theorem parse_lines (h : ∀ d ∈ data, d.Readable) (filename : Text) :
    parse (lines (data.map Datum.source)) filename = .ok (data.map Datum.settled) := by
  have hwritten : ∀ d ∈ data.map Datum.settled, WrittenAsForm d := by
    intro d hd
    obtain ⟨d', hd', rfl⟩ := List.mem_map.mp hd
    obtain ⟨hreadable, hfinite⟩ := Datum.settled_readable (h d' hd')
    exact (writtenAs_of_readable _ hfinite).1 hreadable
  obtain ⟨forms, hvalues, hlexemes⟩ := exists_forms_lines hwritten
  rw [Datum.map_source_settled] at hlexemes
  rw [hlexemes.parse filename, hvalues]

theorem unifyNewlines_lines (h : ∀ d ∈ data, d.Readable) :
    (lines (data.map Datum.source)).unifyNewlines = lines (data.map Datum.source) := by
  apply unifyNewlines_of_forall_ne
  intro c hc
  obtain ⟨t, ht, hmem⟩ := List.mem_flatMap.mp hc
  obtain ⟨d, hd, rfl⟩ := List.mem_map.mp ht
  rcases List.mem_append.mp hmem with hmem | hmem
  · exact (Datum.isLine_source (h d hd) c hmem).1
  · rw [List.mem_singleton.mp hmem]
    decide

/-! ## Runs that print data -/

def Reads (disk : Disk) (input : List UInt8) (path : Text) (data : List Datum) : Prop :=
  ∃ source, loadSource disk input path = .ok source ∧ parse source.text source.filename = .ok data

theorem readPath_eq_ok {s : Session} :
    (s.readPath disk path).1 = .ok data ↔ Reads disk s.input path data := by
  rw [Session.readPath_fst, Reads]
  cases loadSource disk s.input path with
  | error e => simp [Except.mapError, Except.bind]
  | ok source =>
    cases hparse : parse source.text source.filename <;>
      simp [Except.mapError, Except.bind, hparse]

theorem gather_data (path : Text) (disk : Disk) (input : List UInt8) :
    gather { input := path } disk input =
      ((({ input } : Session).readPath disk path).1.map (·.map Datum.print), []) := by
  have hlog : (({ input } : Session).readPath disk path).2.1 = [] :=
    Session.readPath_log rfl disk path
  unfold gather
  dsimp only
  rw [hlog]
  rfl

theorem Reads.readable (h : Reads disk input path data) : ∀ d ∈ data, d.Readable := by
  obtain ⟨source, -, hparse⟩ := h
  exact readable_of_parse hparse

/-- A run on a source that is read prints the data, one to a line. -/
theorem respond_of_reads (hpath : classify path = .ok .operand) (h : Reads disk input path data) :
    respond [path] disk input =
      { ending := .returned 0, output := lines (data.map Datum.source) } := by
  have hread : (({ input } : Session).readPath disk path).1 = .ok data := readPath_eq_ok.mpr h
  have hgather := gather_data path disk input
  have hrun : respond [path] disk input = run { input := path } disk input :=
    respond_flags hpath [] List.not_mem_nil
  rw [hread, Except.map, Datum.map_print_of_readable h.readable] at hgather
  rw [hrun, run_of_gather hgather]

theorem respond_returned_zero_iff :
    (respond [path] disk input).ending = .returned 0 ↔
      classify path = .ok .operand ∧ ∃ data, Reads disk input path data := by
  constructor
  · intro h
    unfold respond at h
    cases hoptions : parseArguments [path] with
    | error stop =>
      rw [hoptions] at h
      exact absurd h (ending_outcome_ne stop)
    | ok options =>
      obtain ⟨hpath, rfl⟩ := parseArguments_single.mp hoptions
      rw [hoptions] at h
      obtain ⟨texts, htexts⟩ := run_returned_zero_iff.mp h
      rw [gather_data] at htexts
      cases hread : (({ input } : Session).readPath disk path).1 with
      | error e =>
        rw [hread] at htexts
        cases htexts
      | ok data => exact ⟨hpath, data, readPath_eq_ok.mp hread⟩
  · rintro ⟨hpath, data, h⟩
    rw [respond_of_reads hpath h]

/-- A run on one operand returns zero for every source that can be read and for no other. It prints
one line for each datum, and a run on what it printed prints the same. -/
theorem respond_normal (path : Text) (disk : Disk) (input : List UInt8) :
    ((respond [path] disk input).ending = .returned 0 ↔
      classify path = .ok .operand ∧ ∃ data, Reads disk input path data) ∧
    ((respond [path] disk input).ending = .returned 0 →
      ∃ data, Reads disk input path data ∧
        (respond [path] disk input).output = lines (data.map Datum.source) ∧
        (∀ d ∈ data, d.source.IsLine) ∧
        ∀ path' disk' input', classify path' = .ok .operand →
          Supplies disk' input' path' (Utf8.encode (respond [path] disk input).output) →
          respond [path'] disk' input' =
            { ending := .returned 0, output := (respond [path] disk input).output }) := by
  refine ⟨respond_returned_zero_iff, ?_⟩
  intro hzero
  obtain ⟨hpath, data, h⟩ := respond_returned_zero_iff.mp hzero
  have hreadable : ∀ d ∈ data, d.Readable := h.readable
  have houtput : (respond [path] disk input).output = lines (data.map Datum.source) := by
    rw [respond_of_reads hpath h]
  refine ⟨data, h, houtput, fun d hd => Datum.isLine_source (hreadable d hd), ?_⟩
  intro path' disk' input' hpath' hsupplies
  rw [houtput] at hsupplies ⊢
  have hagain : Reads disk' input' path' (data.map Datum.settled) := by
    refine ⟨⟨lines (data.map Datum.source), sourceName path'⟩, ?_, parse_lines hreadable _⟩
    rw [loadSource_of_supplies hsupplies, decodeSource_encode, unifyNewlines_lines hreadable]
    rfl
  rw [respond_of_reads hpath' hagain, Datum.map_source_settled]

/-- A numeral too large for 64 bits is printed as the name of an infinite number, and so is that
name. -/
theorem respond_normal_overflow :
    let disk : Disk := fun _ => .ok (Utf8.encode (Decimal.positional ⟨true, 1, 309⟩))
    let printed : Disk := fun _ => .ok (Utf8.encode "-inf\n".toList)
    respond [['f']] disk [] = { ending := .returned 0, output := "-inf\n".toList } ∧
      respond [['f']] printed [] = { ending := .returned 0, output := "-inf\n".toList } := by
  intro disk printed
  have hpath : classify ['f'] = .ok .operand := rfl
  have hsupplies : ∀ text, Supplies (fun _ => .ok (Utf8.encode text)) [] ['f']
      (Utf8.encode text) := by
    intro text
    exact supplies_file (by decide) (by decide) rfl
  have his : Lexeme.Is .number (Decimal.positional ⟨true, 1, 309⟩) :=
    Decimal.isNumeral_positional _
  have hlexemes : HasLexemes (Decimal.positional ⟨true, 1, 309⟩)
      ([Form.number (Decimal.positional ⟨true, 1, 309⟩)].flatMap Form.lexemes) := by
    have hnumber := hasLexemes_nil.cons his rfl (by simp [Delimited]) (by simp)
    rwa [List.append_nil] at hnumber
  have hreads : Reads disk [] ['f'] [.number (.infinite true)] := by
    refine ⟨⟨Decimal.positional ⟨true, 1, 309⟩, ['f']⟩, ?_, ?_⟩
    · rw [loadSource_of_supplies (hsupplies _), decodeSource_encode,
        his.unifyNewlines_eq (by simp)]
      rfl
    · rw [hlexemes.parse, List.map_singleton, Form.value, Decimal.ofDecimal_ofPositional,
        Binary64.ofDecimal_overflow]
  have hfirst := respond_of_reads hpath hreads
  obtain ⟨hzero, hnormal⟩ := respond_normal ['f'] disk []
  obtain ⟨-, -, -, -, hagain⟩ := hnormal (hzero.mpr ⟨hpath, _, hreads⟩)
  have hsecond := hagain ['f'] printed [] hpath
  rw [hfirst] at hsecond
  exact ⟨hfirst, hsecond (hsupplies _)⟩

end SExpr.CommandLine
