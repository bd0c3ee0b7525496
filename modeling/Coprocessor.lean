import Coprocessor.Assembly.Buffer
import Coprocessor.Main
import Coprocessor.Proofs.Assembly.Cells
import Coprocessor.Proofs.Compile.Depth
import Coprocessor.Proofs.Language.Names
import Coprocessor.Proofs.Compile.Allotment
import Coprocessor.Proofs.Compile.Orderliness
import Coprocessor.Proofs.Compile.Supply
import Coprocessor.Proofs.Compile.Cells
import Coprocessor.Proofs.Decimal.Value
import Coprocessor.Proofs.Machine.Basic
import Coprocessor.Proofs.Language.Meaning
import Coprocessor.Proofs.Machine.Run
import Coprocessor.Proofs.Compile.Evaluation
import Coprocessor.Proofs.Machine.Simulation
import Coprocessor.Proofs.Compile.Simulation
import Coprocessor.Proofs.Compile.Preservation
import Coprocessor.Proofs.Compile.Operands
import Coprocessor.Proofs.Tree.Walks
import Coprocessor.Proofs.Program.Grammar
import Coprocessor.Proofs.SExpr.Scanning
import Coprocessor.Proofs.SExpr.Writing
import Coprocessor.Proofs.SExpr.Exactness
import Coprocessor.Proofs.Tree.Numbering
import Coprocessor.Proofs.Program.Writing
import Coprocessor.Proofs.Tree.Unfolding
import Coprocessor.Proofs.Compile.Lockstep
import Coprocessor.Proofs.Compile.Pieces
import Coprocessor.Proofs.Machine.ControlWord
import Coprocessor.Proofs.Compile.ControlWord
import Coprocessor.Proofs.Machine.Ways
import Coprocessor.Proofs.Machine.Moves
import Coprocessor.Proofs.Compile.Conduct
import Coprocessor.Proofs.Compile.ZeroComparisons
import Coprocessor.Proofs.Symbol.History
import Coprocessor.Proofs.Compile.DefinedNames
import Coprocessor.Proofs.Assembly.LineFeeds
import Coprocessor.Proofs.Compile.LineFeeds
import Coprocessor.Proofs.Assembly.Routes
import Coprocessor.Proofs.Assembly.Surplus
import Coprocessor.Proofs.Compile.Surplus
import Coprocessor.Proofs.Command.Settings
import Coprocessor.Proofs.Command.Disk
import Coprocessor.Proofs.Command.Run
import Coprocessor.Proofs.Compile.NarrowSlots
import Coprocessor.Proofs.Compile.Unordered
import Coprocessor.Proofs.Compile.Steps
import Coprocessor.Proofs.Tree.Links
import Coprocessor.Proofs.Report.Graph
import Coprocessor.Proofs.Report.Labels
import Coprocessor.Proofs.Report.Outline
import Coprocessor.Proofs.Report.Sheet
import Coprocessor.Proofs.Decimal.Overflow
import Coprocessor.Proofs.Tree.Literals
import Coprocessor.Proofs.Compile.RealLiterals
import Coprocessor.Proofs.Program.Identifiers
