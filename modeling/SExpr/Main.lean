import SExpr.CommandLine.Run

/-!
# The command

The command line as a program. It fetches the bytes of the one source that it is asked for and
shows what the run makes of them.
-/
namespace SExpr.CommandLine

/-- The number of a system error, which some calls report with a minus sign. -/
def errorNumber (code : UInt32) : Nat :=
  min code.toNat (0 - code).toNat

/-- The cause that an error of the operating system stands for. -/
def causeOf : IO.Error → FileCause
  | .noFileOrDirectory .. => .missing
  | .inappropriateType _ code details =>
    match errorNumber code with
    | 20 => .notADirectory
    | 21 => .isADirectory
    | number => .other number details.toList
  | .permissionDenied _ code details => .other (errorNumber code) details.toList
  | .invalidArgument _ code details => .other (errorNumber code) details.toList
  | e => .other 5 e.toString.toList

/-- The bytes of a file, as a disk on which every path leads to it. -/
def fetch (path : Text) : IO Disk := do
  match ← (IO.FS.readBinFile (String.ofList path)).toBaseIO with
  | .ok bytes => return fun _ => .ok bytes.toList
  | .error e => return fun _ => .error (causeOf e)

def present (outcome : Outcome) : IO UInt32 := do
  IO.print (String.ofList outcome.output)
  IO.eprint (String.ofList outcome.errors)
  match outcome.ending with
  | .returned status => return status.toUInt32
  | .exited code => return code.toUInt32
  | .raised e =>
    IO.eprintln (String.ofList e.message)
    return 1

def command (arguments : List String) : IO UInt32 := do
  match parseArguments (arguments.map String.toList) with
  | .error stop => present stop.outcome
  | .ok options =>
    if options.input = standardInput then
      let bytes ← (← IO.getStdin).readBinToEnd
      present (run options (fun _ => .error .missing) bytes.toList)
    else present (run options (← fetch options.input) [])

end SExpr.CommandLine

def main (arguments : List String) : IO UInt32 :=
  SExpr.CommandLine.command arguments
