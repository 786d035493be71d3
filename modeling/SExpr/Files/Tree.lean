import SExpr.Text.Quoted
import SExpr.Text.Utf8

/-!
# Files

A source is loaded from a file or from standard input. Its bytes are strict UTF-8, and its lines
may end by any convention. Standard input is named by a hyphen and shows up under a name of its
own.

A file tree holds the files and directories below one working directory. Paths are followed from
there component by component. Outside of the tree only the names that a directory has for itself and
for its parent are known.
-/
namespace SExpr

/-! ## Sources on disk -/

/-- Why the system gives no contents for a path. -/
inductive FileCause
  | missing
  | notADirectory
  | isADirectory
  | other (number : Nat) (wording : Text)
  deriving DecidableEq, Repr

namespace FileCause

def number : FileCause → Nat
  | missing => 2
  | notADirectory => 20
  | isADirectory => 21
  | other number _ => number

def wording : FileCause → Text
  | missing => "No such file or directory".toList
  | notADirectory => "Not a directory".toList
  | isADirectory => "Is a directory".toList
  | other _ wording => wording

end FileCause

/-- Why a source cannot be loaded. No path holds the null character. -/
inductive LoadError
  | file (cause : FileCause) (path : Text)
  | nullInPath
  | decoding (e : Text.Utf8.DecodeError)
  deriving DecidableEq, Repr

def LoadError.message : LoadError → Text
  | file cause path =>
    "[Errno ".toList ++ Text.ofNat cause.number ++ "] ".toList ++ cause.wording ++
      ": ".toList ++ path.quoted
  | nullInPath => "embedded null byte".toList
  | decoding e => e.message

/-- The contents that a system has under each path. -/
abbrev Disk := Text → Except FileCause (List UInt8)

/-- A source text and the name that its faults are reported under. -/
structure SourceText where
  text : Text
  filename : Text
  deriving DecidableEq, Repr

def standardInput : Text := ['-']

def standardInputName : Text :=
  "<stdin>".toList

def decodeSource (bytes : List UInt8) : Except LoadError Text :=
  match Text.Utf8.decode bytes with
  | .ok text => .ok text.unifyNewlines
  | .error e => .error (.decoding e)

/-- Loads a source from standard input or from disk. -/
def loadSource (disk : Disk) (input : List UInt8) (path : Text) : Except LoadError SourceText :=
  if path = standardInput then (decodeSource input).map (⟨·, standardInputName⟩)
  else if path.contains '\x00' then .error .nullInPath
  else
    match disk path with
    | .ok bytes => (decodeSource bytes).map (⟨·, path⟩)
    | .error cause => .error (.file cause path)

/-! ## File trees -/

/-- What a path can lead to. -/
inductive FileNode
  | file (contents : List UInt8)
  | directory
  deriving DecidableEq, Repr

/-- Files and directories by their paths' components. Directories around them need no entry. -/
structure FileTree where
  entries : List (List Text × FileNode)
  deriving Repr

namespace FileTree

def components (path : Text) : List Text :=
  path.splitOn '/'

def ofPaths (entries : List (Text × FileNode)) : FileTree :=
  ⟨entries.map fun e => (components e.1, e.2)⟩

def node? (t : FileTree) (place : List Text) : Option FileNode :=
  match t.entries.find? (·.1 = place) with
  | some entry => some entry.2
  | none =>
    if place = [] || t.entries.any (place.isPrefixOf ·.1) then some .directory else none

/-- Follows components from a place in the tree, or from an unknown directory outside of it. -/
def follow (t : FileTree) : Option (List Text) → List Text → Except FileCause FileNode
  | none, [] => .ok .directory
  | none, c :: cs => if c ∈ ["".toList, ".".toList, "..".toList] then t.follow none cs
    else .error .missing
  | some place, cs =>
    match t.node? place, cs with
    | none, _ => .error .missing
    | some node, [] => .ok node
    | some (.file _), _ :: _ => .error .notADirectory
    | some .directory, c :: cs =>
      if c ∈ ["".toList, ".".toList] then t.follow (some place) cs
      else if c = "..".toList then
        t.follow (if place = [] then none else some place.dropLast) cs
      else t.follow (some (place ++ [c])) cs

/-- What a path leads to. A path from the root leaves the tree, and the empty path leads nowhere. -/
def resolve (t : FileTree) : Text → Except FileCause FileNode
  | [] => .error .missing
  | '/' :: path => t.follow none (components path)
  | path => t.follow (some []) (components path)

def disk (t : FileTree) : Disk := fun path =>
  match t.resolve path with
  | .ok (.file contents) => .ok contents
  | .ok .directory => .error .isADirectory
  | .error cause => .error cause

end FileTree

end SExpr
