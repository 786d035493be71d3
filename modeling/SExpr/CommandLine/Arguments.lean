import SExpr.Text.Quoted

/-!
# Arguments of the command line

The command takes one operand and four flags in any order. A long flag may be cut short as long as
it stays unique, and after a double hyphen everything is an operand. All arguments are classified
before any takes effect, so an ambiguous flag is refused before anything else; a missing operand is
refused before surplus arguments.
-/
namespace SExpr.CommandLine

/-- The flags of the command. -/
inductive Flag
  | help
  | tokens
  | trivia
  | verbose
  deriving DecidableEq, Repr

namespace Flag

def all : List Flag :=
  [help, tokens, trivia, verbose]

def long : Flag → Text
  | help => "--help".toList
  | tokens => "--tokens".toList
  | trivia => "--trivia".toList
  | verbose => "--verbose".toList

/-- The name of a flag in messages: all its spellings. Only help has a short one. -/
def spellings : Flag → Text
  | help => "-h/--help".toList
  | f => f.long

end Flag

/-- Why the arguments are refused. -/
inductive UsageError
  | ambiguous (argument : Text) (candidates : List Flag)
  | valueRefused (flag : Flag) (value : Text)
  | operandMissing
  | surplus (arguments : List Text)
  deriving DecidableEq, Repr

def UsageError.message : UsageError → Text
  | ambiguous argument candidates =>
    "ambiguous option: ".toList ++ argument ++ " could match ".toList ++
      Text.join ", ".toList (candidates.map Flag.long)
  | valueRefused flag value =>
    "argument ".toList ++ flag.spellings ++ ": ignored explicit argument ".toList ++ value.quoted
  | operandMissing => "the following arguments are required: input".toList
  | surplus arguments => "unrecognized arguments: ".toList ++ Text.join [' '] arguments

/-- What an argument before a double hyphen is. No flag takes a value, so one that has a value
attached keeps it for the complaint. -/
inductive Word
  | operand
  | flag (f : Flag) (value : Option Text)
  | unknown
  deriving DecidableEq, Repr

def isDigits (t : Text) : Bool :=
  t ≠ [] && t.all Text.isDecimalDigit

def withoutLineEnd (t : Text) : Text :=
  if t.getLast? = some '\n' then t.dropLast else t

/-- A hyphen before digits, or before a point and digits with or without digits before it. Such an
argument is an operand. -/
def looksNegative (argument : Text) : Bool :=
  match withoutLineEnd argument with
  | '-' :: t =>
    isDigits t ||
      match t.dropWhile Text.isDecimalDigit with
      | '.' :: fraction => isDigits fraction
      | _ => false
  | _ => false

/-- The value that is attached to a run of short flags, all of which are help: what follows an
equals sign, or from a further hyphen on. An unknown letter ends the run, and help is given. -/
def shortValue : Text → Option Text
  | '=' :: value => some value
  | '-' :: value => some ('-' :: value)
  | 'h' :: more => shortValue more
  | _ => none

def unmatched (argument : Text) : Word :=
  if looksNegative argument || argument.contains ' ' then .operand else .unknown

def classifyLong (argument : Text) : Except UsageError Word :=
  let name := argument.takeWhile (· ≠ '=')
  let value :=
    match argument.dropWhile (· ≠ '=') with
    | _ :: value => some value
    | [] => none
  match Flag.all.filter fun f => name.isPrefixOf f.long with
  | [] => .ok (unmatched argument)
  | [f] => .ok (.flag f value)
  | candidates => .error (.ambiguous argument candidates)

def classify : Text → Except UsageError Word
  | '-' :: '-' :: t => classifyLong ('-' :: '-' :: t)
  | '-' :: 'h' :: t => .ok (.flag .help (shortValue t))
  | '-' :: c :: t => .ok (unmatched ('-' :: c :: t))
  | _ => .ok .operand

def separator : Text := ['-', '-']

/-- What has been made of the arguments so far. `adjacent` tells that the last argument was taken
as the operand. -/
structure Progress where
  operand : Option Text := none
  adjacent : Bool := false
  flags : List Flag := []
  surplus : List Text := []
  deriving DecidableEq, Repr

/-- Why the command does not run. -/
inductive Stop
  | help
  | usage (e : UsageError)
  deriving DecidableEq, Repr

namespace Progress

/-- Takes in an argument before the double hyphen. -/
def take (p : Progress) (argument : Text) : Word → Except Stop Progress
  | .operand =>
    match p.operand with
    | none => .ok { p with operand := some argument, adjacent := true }
    | some _ => .ok { p with adjacent := false, surplus := p.surplus ++ [argument] }
  | .flag f (some value) => .error (.usage (.valueRefused f value))
  | .flag .help none => .error .help
  | .flag f none => .ok { p with adjacent := false, flags := p.flags ++ [f] }
  | .unknown => .ok { p with adjacent := false, surplus := p.surplus ++ [argument] }

/-- Takes in a double hyphen and the arguments after it. The double hyphen goes with the operand if
it stands next to it, and is surplus otherwise. -/
def finish (p : Progress) (arguments : List Text) : Progress :=
  match p.operand, arguments with
  | none, [] => { p with surplus := p.surplus ++ [separator] }
  | none, argument :: more => { p with operand := some argument, surplus := p.surplus ++ more }
  | some _, more =>
    { p with surplus := p.surplus ++ if p.adjacent then more else separator :: more }

end Progress

/-- What the command is to do. -/
structure Options where
  input : Text
  tokens : Bool := false
  trivia : Bool := false
  verbose : Bool := false
  deriving DecidableEq, Repr

def parseArguments (arguments : List Text) : Except Stop Options :=
  let before := arguments.takeWhile (· ≠ separator)
  match before.mapM classify with
  | .error e => .error (.usage e)
  | .ok words => do
    let taken ← (before.zip words).foldlM (fun p w => p.take w.1 w.2) ({} : Progress)
    let p :=
      match arguments.drop before.length with
      | [] => taken
      | _ :: after => taken.finish after
    match p.operand with
    | none => .error (.usage .operandMissing)
    | some input =>
      if p.surplus ≠ [] then .error (.usage (.surplus p.surplus))
      else
        .ok { input, tokens := p.flags.contains .tokens, trivia := p.flags.contains .trivia,
              verbose := p.flags.contains .verbose }

end SExpr.CommandLine
