import Spreadsheet.Data.Cell
import Spreadsheet.Formula.Expr
import Spreadsheet.Formula.Grammar
import Spreadsheet.Main
import Spreadsheet.Proofs.Cell
import Spreadsheet.Proofs.Column.Order
import Spreadsheet.Proofs.Formula.Agreement
import Spreadsheet.Proofs.Formula.Check
import Spreadsheet.Proofs.Formula.Lexer
import Spreadsheet.Proofs.Formula.Munch
import Spreadsheet.Proofs.Formula.Names
import Spreadsheet.Proofs.Formula.Print
import Spreadsheet.Proofs.Formula.Reject
import Spreadsheet.Proofs.Formula.Repair
import Spreadsheet.Proofs.Formula.Unclosed
import Spreadsheet.Proofs.Formula.Value
import Spreadsheet.Proofs.Graph.BreadthFirst
import Spreadsheet.Proofs.Graph.Closure
import Spreadsheet.Proofs.Graph.EdgeSet
import Spreadsheet.Proofs.Graph.Entries
import Spreadsheet.Proofs.Graph.Order
import Spreadsheet.Proofs.Grid.Consistent
import Spreadsheet.Proofs.Grid.Settled
import Spreadsheet.Proofs.Relation
import Spreadsheet.Proofs.Sheet.InStep
import Spreadsheet.Proofs.Sheet.Ordering
import Spreadsheet.Proofs.Sheet.Policies
import Spreadsheet.Proofs.Sheet.Progress
import Spreadsheet.Proofs.Sheet.Reachable
import Spreadsheet.Proofs.Sheet.Recalc
import Spreadsheet.Proofs.Sheet.Sound
import Spreadsheet.Proofs.Sheet.Touched
import Spreadsheet.Proofs.Formula.References
import Spreadsheet.Proofs.Grid.Cycle
import Spreadsheet.Proofs.Sheet.Changes
import Spreadsheet.Proofs.Sheet.Cyclic
import Spreadsheet.Proofs.Sheet.Screen
import Spreadsheet.Proofs.Format
import Spreadsheet.Proofs.Sheet.Ledger
import Spreadsheet.Proofs.Sheet.Listing
import Spreadsheet.Proofs.Sheet.Evaluate
import Spreadsheet.Proofs.Sheet.Toggle
import Spreadsheet.Proofs.Sheet.WellFormed
import Spreadsheet.Proofs.Lines
import Spreadsheet.Proofs.Literal
import Spreadsheet.Proofs.Script.Parse
import Spreadsheet.Proofs.Script.Replay
import Spreadsheet.Proofs.Grid.Toggled
import Spreadsheet.Proofs.Window
import Spreadsheet.Proofs.Sheet.Repaint
