import SExpr.Datum.Basic
import SExpr.Reading.Fault

/-!
# Unfinished data

While a datum is read, the lists and abbreviations around the next token are kept as frames,
innermost first. A token either adds to them, or completes the datum, or cannot stand there. What
stands where is decided by the innermost frame alone.
-/
namespace SExpr

/-- Something that waits for a datum: an abbreviation, the next item of a list, or the tail after
the point of a list. Items are kept latest first. -/
inductive Frame
  | abbreviation (a : Abbreviation)
  | items (b : Bracket) (read : List Datum)
  | tail (b : Bracket) (read : List Datum)
  deriving DecidableEq

/-- What is still needed: a datum for the innermost frame, or the closer of a list that is complete
but for it. -/
inductive Pending
  | datum (frames : List Frame)
  | closer (b : Bracket) (list : Datum) (frames : List Frame)
  deriving DecidableEq

/-- What a token may be required to be. -/
inductive Wanted
  | expression
  | closer (b : Bracket)
  deriving DecidableEq, Repr

def Wanted.describe : Wanted → Text
  | expression => "an expression".toList
  | closer b => ['"', b.closer, '"']

/-- Why a token cannot stand where it does. -/
inductive Refusal
  | unknownText
  | wanted (w : Wanted)
  | count (e : CountError)
  deriving DecidableEq, Repr

def Refusal.error (filename : Text) (token : Token) : Refusal → ReadError
  | unknownText => .source ⟨.unknownText token.text, filename, token.position⟩
  | wanted w => .source ⟨.unexpected w.describe token.describe, filename, token.position⟩
  | count e => .count e

/-- What comes of a token. It is taken unless it is refused where it stands. -/
inductive Verdict
  | more (next : Pending)
  | done (d : Datum)
  | refuse (why : Refusal) (taken : Bool)
  deriving DecidableEq

namespace Pending

/-- Hands a finished datum to the frames. -/
def fill (d : Datum) : List Frame → Verdict
  | [] => .done d
  | .abbreviation a :: frames => fill (.ofItems [.symbol a.symbol, d]) frames
  | .items b read :: frames => .more (.datum (.items b (d :: read) :: frames))
  | .tail b read :: frames => .more (.closer b (.ofItems read.reverse d) frames)

def start (token : Token) (frames : List Frame) : Verdict :=
  match token.kind with
  | .number => fill (.number (.ofDecimal (.ofPositional token.text))) frames
  | .boolean => fill (.boolean (token.text = "#t".toList)) frames
  | .symbol => fill (.symbol token.text) frames
  | .abbreviation a => .more (.datum (.abbreviation a :: frames))
  | .opener b => .more (.datum (.items b [] :: frames))
  | _ => .refuse (.wanted .expression) true

/-- Adds an item to a list or ends its items. A point or an ellipsis needs an item before it. -/
def extend (token : Token) (b : Bracket) (read : List Datum) (frames : List Frame) : Verdict :=
  match token.kind with
  | .closer b' =>
    if b' = b then fill (.ofItems read.reverse) frames else .refuse (.wanted (.closer b)) false
  | .endOfInput => .refuse (.wanted (.closer b)) false
  | .dot =>
    if read = [] then .refuse (.wanted .expression) false
    else .more (.datum (.tail b read :: frames))
  | .ellipsis =>
    if read = [] then .refuse (.wanted .expression) false
    else
      match repeatCount token.text with
      | .ok n => .more (.closer b (.ofItems read.reverse (.ellipsis n)) frames)
      | .error e => .refuse (.count e) true
  | _ => start token (.items b read :: frames)

/-- What comes of the next token. Blanks change nothing, and unknown text may stand nowhere. -/
def feed (p : Pending) (token : Token) : Verdict :=
  if token.kind.isBlank then .more p
  else if token.kind = .unknown then .refuse .unknownText true
  else
    match p with
    | .closer b list frames =>
      if token.kind = .closer b then fill list frames else .refuse (.wanted (.closer b)) false
    | .datum (.items b read :: frames) => extend token b read frames
    | .datum frames => start token frames

theorem feed_endOfInput (p : Pending) {token : Token} (h : token.kind = .endOfInput) :
    ∃ why taken, p.feed token = .refuse why taken := by
  rcases p with (_ | ⟨_ | _ | _, _⟩) | _ <;> simp [feed, start, extend, h, Kind.isBlank]

end Pending

end SExpr
