import SExpr.Proofs.Reading.Newlines
import SExpr.Proofs.Text.Utf8
import SExpr.Session

/-!
# Files, standard input and texts

The same bytes give the same data, whether a file or standard input holds them, and they give what
the text gives that they encode. Only newlines are unified on the way, which moves the places of
errors at most.
-/
namespace SExpr

open Text

variable {disk disk' : Disk} {input bytes : List UInt8} {path : Text} {s s' : Session}

/-! ## The source at a path -/

/-- The bytes of the source at a path. The path of a file has no null character. -/
def Supplies (disk : Disk) (input : List UInt8) (path : Text) (bytes : List UInt8) : Prop :=
  if path = standardInput then input = bytes else '\x00' ∉ path ∧ disk path = .ok bytes

def sourceName (path : Text) : Text :=
  if path = standardInput then standardInputName else path

theorem supplies_standardInput : Supplies disk input standardInput bytes ↔ input = bytes := by
  rw [Supplies, if_pos rfl]

theorem supplies_file (hpath : path ≠ standardInput) (hnull : '\x00' ∉ path)
    (hdisk : disk path = .ok bytes) : Supplies disk input path bytes := by
  rw [Supplies, if_neg hpath]
  exact ⟨hnull, hdisk⟩

theorem loadSource_of_supplies (h : Supplies disk input path bytes) :
    loadSource disk input path = (decodeSource bytes).map (⟨·, sourceName path⟩) := by
  unfold Supplies at h
  unfold loadSource sourceName
  by_cases hpath : path = standardInput
  · rw [if_pos hpath] at h
    rw [if_pos hpath, if_pos hpath, h]
  · rw [if_neg hpath] at h
    have hnull : ¬ path.contains '\x00' = true := by
      simpa using h.1
    rw [if_neg hpath, if_neg hpath, if_neg hnull, h.2]

theorem loadSource_of_decode {text : Text} (h : Supplies disk input path bytes)
    (hdecode : decodeSource bytes = .ok text) :
    loadSource disk input path = .ok ⟨text, sourceName path⟩ := by
  rw [loadSource_of_supplies h, hdecode]
  rfl

theorem decodeSource_encode (text : Text) :
    decodeSource (Utf8.encode text) = .ok text.unifyNewlines := by
  rw [decodeSource, Utf8.decode_encode]

/-! ## Reading from a channel -/

namespace SessionError

def withoutPlace : SessionError → SessionError
  | .read e => .read e.withoutPlace
  | e => e

def renamed (name : Text) : SessionError → SessionError
  | .read e => .read (e.renamed name)
  | e => e

/-- A change of failures that changes failed readings alike can be made before they are reported. -/
theorem mapError_read {α : Type} {f : SessionError → SessionError} {g : ReadError → ReadError}
    (h : ∀ e, f (.read e) = .read (g e)) (answer : Except ReadError α) :
    (answer.mapError read).mapError f = (answer.mapError g).mapError read := by
  cases answer with
  | error e => exact congrArg Except.error (h e)
  | ok a => rfl

end SessionError

namespace Session

theorem readText_fst (s : Session) (source : SourceText) :
    (s.readText source).1 = parse source.text source.filename := by
  unfold readText
  dsimp only
  split <;> simp_all

theorem log_of_quiet (h : s.verbose = false) (messages : List Text) : s.log messages = [] := by
  simp [log, h]

theorem readText_log (h : s.verbose = false) (source : SourceText) :
    (s.readText source).2 = [] := by
  unfold readText
  dsimp only
  split <;> exact log_of_quiet h _

theorem readPath_log (h : s.verbose = false) (disk : Disk) (path : Text) :
    (s.readPath disk path).2.1 = [] := by
  have hverbose : (s.load disk path).2.verbose = false := by
    unfold load
    split_ifs <;> exact h
  unfold readPath
  dsimp only
  split
  · exact log_of_quiet h _
  · rename_i source s' hload
    rw [hload] at hverbose
    dsimp only
    rw [log_of_quiet h, readText_log hverbose]
    rfl

theorem readPath_fst (s : Session) (disk : Disk) (path : Text) :
    (s.readPath disk path).1 = ((loadSource disk s.input path).mapError .load).bind fun source =>
      (parse source.text source.filename).mapError .read := by
  unfold readPath load
  dsimp only
  cases loadSource disk s.input path with
  | error e => rfl
  | ok source => exact congrArg (Except.mapError SessionError.read) (readText_fst _ source)

theorem readPath_of_supplies (h : Supplies disk s.input path bytes) :
    (s.readPath disk path).1 = ((decodeSource bytes).mapError .load).bind fun text =>
      (parse text (sourceName path)).mapError .read := by
  rw [readPath_fst, loadSource_of_supplies h]
  cases decodeSource bytes <;> rfl

theorem readPath_of_encode {text : Text} (h : Supplies disk s.input path (Utf8.encode text)) :
    (s.readPath disk path).1 =
      (parse text.unifyNewlines (sourceName path)).mapError .read := by
  rw [readPath_of_supplies h, decodeSource_encode]
  rfl

/-- A file gives the data of the text that its bytes encode, and the same error but for the place,
which is the same too if every carriage return in the text is followed by a line feed. On standard
input the bytes give what they give in the file, under the name of standard input. -/
theorem readPath_channel (hpath : path ≠ standardInput) (hfile : Supplies disk s.input path bytes)
    (hinput : Supplies disk' s'.input standardInput bytes) :
    (∀ text, bytes = Utf8.encode text →
      (s.readPath disk path).1.mapError SessionError.withoutPlace =
        ((s.readText ⟨text, path⟩).1.mapError .read).mapError SessionError.withoutPlace ∧
      (text.ReturnsPaired →
        (s.readPath disk path).1 = (s.readText ⟨text, path⟩).1.mapError .read)) ∧
    (s'.readPath disk' standardInput).1 =
      (s.readPath disk path).1.mapError (SessionError.renamed standardInputName) := by
  have hname : sourceName path = path := if_neg hpath
  have hstandard : sourceName standardInput = standardInputName := if_pos rfl
  refine ⟨?_, ?_⟩
  · intro text hbytes
    subst hbytes
    have hread := readPath_of_encode hfile
    rw [hname] at hread
    rw [hread, readText_fst]
    refine ⟨?_, ?_⟩
    · have hplace : ∀ e, SessionError.withoutPlace (.read e) = .read e.withoutPlace :=
        fun _ => rfl
      rw [SessionError.mapError_read hplace, SessionError.mapError_read hplace,
        parse_unifyNewlines_withoutPlace]
    · intro hpaired
      rw [parse_unifyNewlines hpaired]
  · rw [readPath_of_supplies hinput, readPath_of_supplies hfile, hname, hstandard]
    cases decodeSource bytes with
    | error e => rfl
    | ok text =>
      have hrenamed : ∀ e, SessionError.renamed standardInputName (.read e) =
          .read (e.renamed standardInputName) :=
        fun _ => rfl
      have hread := SessionError.mapError_read hrenamed (parse text path)
      rw [← parse_renamed] at hread
      exact hread.symm

/-- A list with the wrong closer behind a pair of a carriage return and a line feed. -/
theorem readPath_channel_mismatch :
    let disk : Disk := fun _ => .ok (Utf8.encode "(a\r\n]".toList)
    let fault : Fault := .unexpected "\")\"".toList "\"]\"".toList
    (({} : Session).readPath disk ['f']).1 = .error (.read (.source ⟨fault, ['f'], ⟨2, 1⟩⟩)) ∧
      (({ input := Utf8.encode "(a\r\n]".toList } : Session).readPath disk standardInput).1 =
        .error (.read (.source ⟨fault, standardInputName, ⟨2, 1⟩⟩)) := by
  intro disk fault
  have hfile : Supplies disk ({} : Session).input ['f'] (Utf8.encode "(a\r\n]".toList) :=
    supplies_file (by decide) (by decide) rfl
  have hinput : Supplies disk ({ input := Utf8.encode "(a\r\n]".toList } : Session).input
      standardInput (Utf8.encode "(a\r\n]".toList) :=
    supplies_standardInput.mpr rfl
  have hparse : parse "(a\r\n]".toList ['f'] = .error (.source ⟨fault, ['f'], ⟨2, 1⟩⟩) := by
    decide +kernel
  obtain ⟨htext, hstandard⟩ := readPath_channel (by decide) hfile hinput
  have hread := (htext _ rfl).2 (by decide)
  rw [readText_fst, hparse] at hread
  rw [hread] at hstandard
  exact ⟨hread, hstandard⟩

end Session

end SExpr
