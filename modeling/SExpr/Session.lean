import SExpr.Files.Tree
import SExpr.Reading.Read

/-!
# Reading sessions

A session reads whole sources one after the other. A verbose session keeps a log of what it does.
Standard input can be read once; after that it is empty.
-/
namespace SExpr

/-- Why a session reads nothing. -/
inductive SessionError
  | load (e : LoadError)
  | read (e : ReadError)
  deriving DecidableEq, Repr

def SessionError.message : SessionError → Text
  | load e => e.message
  | read e => e.message

/-- Whether the session is verbose, and what is left of standard input. -/
structure Session where
  verbose : Bool := false
  input : List UInt8 := []
  deriving DecidableEq, Repr

def logLine (message : Text) : Text :=
  "[lispsyntax] ".toList ++ message ++ ['\n']

namespace Session

/-- The log of some messages, which is empty unless the session is verbose. -/
def log (s : Session) (messages : List Text) : Text :=
  if s.verbose then messages.flatMap logLine else []

/-- Reads the data of a text, and logs its length and how many data there are. -/
def readText (s : Session) (source : SourceText) : Except ReadError (List Datum) × Text :=
  let opening :=
    "Parsing ".toList ++ source.filename ++ " (".toList ++ Text.ofNat source.text.length ++
      " characters)...".toList
  match parse source.text source.filename with
  | .ok data =>
    (.ok data, s.log [opening, "Read ".toList ++ Text.ofNat data.length ++
      " top-level expressions from ".toList ++ source.filename])
  | .error e => (.error e, s.log [opening])

def readTokens (s : Session) (source : SourceText) (withBlanks : Bool := false) :
    List Token × Text :=
  let tokens := tokenize source.text withBlanks
  (tokens, s.log ["Scanned ".toList ++ Text.ofNat tokens.length ++ " tokens from ".toList ++
    source.filename])

/-- Loads a source, which uses up standard input if it comes from there. -/
def load (s : Session) (disk : Disk) (path : Text) : Except LoadError SourceText × Session :=
  (loadSource disk s.input path, if path = standardInput then { s with input := [] } else s)

def readPath (s : Session) (disk : Disk) (path : Text) :
    Except SessionError (List Datum) × Text × Session :=
  let opening := s.log ["Reading ".toList ++ path ++ "...".toList]
  match s.load disk path with
  | (.error e, s') => (.error (.load e), opening, s')
  | (.ok source, s') =>
    let answer := s'.readText source
    (answer.1.mapError .read, opening ++ answer.2, s')

end Session

/-- A use of a session. -/
inductive Request
  | readText (source : SourceText)
  | readPath (path : Text)
  | readTokens (source : SourceText) (withBlanks : Bool)
  | log (message : Text)
  | setVerbose (verbose : Bool)
  deriving DecidableEq, Repr

/-- What a request brings. -/
inductive Reply
  | data (ds : List Datum)
  | tokens (ts : List Token)
  | logged
  | done
  deriving DecidableEq

namespace Session

def perform (disk : Disk) (s : Session) : Request → Except SessionError Reply × Text × Session
  | .readText source =>
    let answer := s.readText source
    ((answer.1.mapError .read).map .data, answer.2, s)
  | .readPath path =>
    let answer := s.readPath disk path
    (answer.1.map .data, answer.2)
  | .readTokens source withBlanks =>
    let answer := s.readTokens source withBlanks
    (.ok (.tokens answer.1), answer.2, s)
  | .log message => (.ok .logged, s.log [message], s)
  | .setVerbose verbose => (.ok .done, [], { s with verbose })

/-- Carries out requests one after the other. A failure does not stop them. -/
def run (disk : Disk) (s : Session) : List Request → List (Except SessionError Reply × Text)
  | [] => []
  | request :: requests =>
    let (reply, log, s') := s.perform disk request
    (reply, log) :: s'.run disk requests

end Session

end SExpr
