import SExpr.Datum.Dispatch
import SExpr.Files.Tree
import SExpr.Main
import SExpr.Proofs.CommandLine.Failure
import SExpr.Proofs.CommandLine.Output
import SExpr.Proofs.Datum.Debug
import SExpr.Proofs.Datum.Distinct
import SExpr.Proofs.Reading.Blanks
import SExpr.Proofs.Reading.Composition
import SExpr.Proofs.Reading.Ending
import SExpr.Proofs.Reading.Expectation
import SExpr.Proofs.Reading.Numeral
import SExpr.Proofs.Reading.Schedule
import SExpr.Proofs.Stream.Lookahead
import SExpr.Proofs.Stream.Separated
