import SExpr.CommandLine.Arguments
import SExpr.Datum.Print
import SExpr.Reading.Descent
import SExpr.Session

/-!
# Running the command

The command reads one source and prints its data, or its tokens, one to a line. What is printed
before a failure stays printed.

Data are read and printed by nested calls. `run` takes it for granted that there is room for all of
these; `runWithin` has room for so many. A run that stops for want of room reports nothing, and it
does so behind the lines of the data in front of the one that is too deep.
-/
namespace SExpr.CommandLine

/-- How a run ends: with a status, by a refusal or help before anything is read, or with a failure
that the command does not report itself. -/
inductive Ending
  | returned (status : Nat)
  | exited (code : Nat)
  | raised (e : SessionError)
  deriving DecidableEq, Repr

/-- Everything that can be seen of a run. `details` tells that details of the failure follow what
is in `errors`. -/
structure Outcome where
  ending : Ending
  output : Text := []
  errors : Text := []
  details : Bool := false
  deriving DecidableEq, Repr

def usageLine : Text :=
  "usage: lispsyntax [-h] [--tokens] [--trivia] [--verbose] input\n".toList

def helpText : Text :=
  usageLine ++
    ("\nRead Scheme-style source text and print the parsed expressions\n" ++
      "\npositional arguments:\n" ++
      "  input       Input source file ('-' for standard input)\n" ++
      "\noptions:\n" ++
      "  -h, --help  show this help message and exit\n" ++
      "  --tokens    Print tokens instead of expressions\n" ++
      "  --trivia    With --tokens, also print whitespace and comment tokens\n" ++
      "  --verbose   Verbose output\n").toList

def Stop.outcome : Stop → Outcome
  | .help => { ending := .exited 0, output := helpText }
  | .usage e =>
    { ending := .exited 2,
      errors := usageLine ++ "lispsyntax: error: ".toList ++ e.message ++ ['\n'] }

def lines (texts : List Text) : Text :=
  texts.flatMap (· ++ ['\n'])

/-- Prints lines one after the other, up to the first that cannot be printed. -/
def printLines {ε : Type} : List (Except ε Text) → Text × Except ε Unit
  | [] => ([], .ok ())
  | .error e :: _ => ([], .error e)
  | .ok t :: more =>
    let printed := printLines more
    (t ++ '\n' :: printed.1, printed.2)

/-- Reads what the options ask for, as the lines to print, with the log. -/
def gather (options : Options) (disk : Disk) (input : List UInt8) :
    Except SessionError (List (Except CountError Text)) × Text :=
  let s : Session := { verbose := options.verbose, input }
  if options.tokens then
    match (s.load disk options.input).1 with
    | .error e => (.error (.load e), [])
    | .ok source =>
      let answer := s.readTokens source options.trivia
      (.ok ((answer.1.map Token.listing).map .ok), answer.2)
  else
    let answer := s.readPath disk options.input
    (answer.1.map (·.map Datum.print), answer.2.1)

/-- The line that reports a failure, and whether details of it follow in a verbose run. A count that
is refused, read or written, and a path with a null character are not reported. -/
def report (options : Options) : SessionError → Option (Text × Bool)
  | .load (.file .missing _) => some ("Error: File not found: ".toList ++ options.input, false)
  | .load (.file cause path) =>
    some ("Error: ".toList ++ (LoadError.file cause path).message, true)
  | .load (.decoding e) => some ("Error: ".toList ++ e.message, true)
  | .read (.source e) => some ("Syntax error: ".toList ++ e.message, false)
  | _ => none

def conclude (options : Options) (output log : Text) : Except SessionError Unit → Outcome
  | .ok () => { ending := .returned 0, output, errors := log }
  | .error e =>
    match report options e with
    | some (line, details) =>
      { ending := .returned 1, output, errors := log ++ line ++ ['\n'],
        details := details && options.verbose }
    | none => { ending := .raised e, output, errors := log }

/-- Runs the command on a disk and standard input, with room for all nested calls. -/
def run (options : Options) (disk : Disk) (input : List UInt8) : Outcome :=
  match gather options disk input with
  | (.error e, log) => conclude options [] log (.error e)
  | (.ok texts, log) =>
    let printed := printLines texts
    conclude options printed.1 log (printed.2.mapError fun e => .read (.count e))

def respond (arguments : List Text) (disk : Disk) (input : List UInt8) : Outcome :=
  match parseArguments arguments with
  | .ok options => run options disk input
  | .error stop => stop.outcome

/-! ## Limited nesting -/

/-- How many calls may be nested in one another: calls that read a datum, and calls that print one.
These are not the frames that an interpreter limits. A call takes several of them, more for printing
than for reading, so there can be room to read data and none to print them. -/
structure Room where
  reading : Nat
  printing : Nat
  deriving DecidableEq, Repr

/-- What is seen of a run with limited room: an outcome, or else what it had printed when there was
no room for a call. -/
inductive Limited
  | ended (outcome : Outcome)
  | tooDeep (output : Text)
  deriving DecidableEq, Repr

namespace Limited

def output : Limited → Text
  | ended outcome => outcome.output
  | tooDeep output => output

end Limited

end SExpr.CommandLine
