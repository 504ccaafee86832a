import Offside.Token.Cursor
import Offside.Main
import Offside.Proofs.Arithmetic.Assignment
import Offside.Proofs.Ending.Program
import Offside.Proofs.Execution.Marks
import Offside.Proofs.Execution.MissingMethod
import Offside.Proofs.Execution.Printing
import Offside.Proofs.Grammar.RoundTrip
import Offside.Proofs.Scanning.Request
import Offside.Proofs.Scanning.Trivia
import Offside.Proofs.Permanence
import Offside.Proofs.Rejection
import Offside.Proofs.Scanning.Margin
import Offside.Proofs.OffendingLine
import Offside.Proofs.Execution.Comparison
import Offside.Proofs.Execution.DeadCode
import Offside.Proofs.Binding
import Offside.Proofs.Execution.FieldReads
import Offside.Proofs.Scanning.Quotation
import Offside.Proofs.Scanning.Fault
import Offside.Proofs.Frames
import Offside.Proofs.Blocks
