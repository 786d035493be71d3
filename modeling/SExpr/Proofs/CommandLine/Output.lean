import SExpr.Proofs.CommandLine.Listing
import SExpr.Proofs.CommandLine.NormalForm
import SExpr.Proofs.Reading.Ending

/-!
# All or nothing

A run reads the whole source before it prints. After that printing fails only where its calls are
nested more deeply than there is room. Apart from this a run that fails has printed nothing, and a
run that returns zero has printed all the lines that were asked for.
-/
namespace SExpr.CommandLine

variable {disk : Disk} {input : List UInt8} {arguments : List Text} {options : Options}
  {source : SourceText} {texts : List Text} {prints : List (Except CountError Text)}
  {room : Room} {data before after : List Datum} {d : Datum}

/-! ## The lines that are asked for -/

namespace Room

/-- There is room for the calls that read a source, where it is read as data. -/
def Reads (room : Room) (options : Options) (source : SourceText) : Prop :=
  options.tokens = true ∨ parseWithin room.reading source.text source.filename ≠ none

end Room

end SExpr.CommandLine
