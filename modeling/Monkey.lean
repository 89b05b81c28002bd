import Monkey.Arguments
import Monkey.CommandLine
import Monkey.Main
import Monkey.Operation
import Monkey.Proofs.Accounts
import Monkey.Proofs.Answer
import Monkey.Proofs.Bytes
import Monkey.Proofs.Bytewise
import Monkey.Proofs.Cascades
import Monkey.Proofs.Chains
import Monkey.Proofs.Concatenation
import Monkey.Proofs.Conservation
import Monkey.Proofs.CursorSafety
import Monkey.Proofs.Derivation
import Monkey.Proofs.Enclosure
import Monkey.Proofs.ExitCode
import Monkey.Proofs.FaultOrder
import Monkey.Proofs.Faults
import Monkey.Proofs.GrammarComplete
import Monkey.Proofs.GrammarSound
import Monkey.Proofs.Holes
import Monkey.Proofs.Layout
import Monkey.Proofs.Lines
import Monkey.Proofs.Listing
import Monkey.Proofs.Locality
import Monkey.Proofs.Lossless
import Monkey.Proofs.Moves
import Monkey.Proofs.Nesting
import Monkey.Proofs.Numbers
import Monkey.Proofs.Operations
import Monkey.Proofs.Parentheses
import Monkey.Proofs.Places
import Monkey.Proofs.Portions
import Monkey.Proofs.Positions
import Monkey.Proofs.Pulling
import Monkey.Proofs.Recoveries
import Monkey.Proofs.Relayout
import Monkey.Proofs.Reports
import Monkey.Proofs.RoundTrip
import Monkey.Proofs.Separators
import Monkey.Proofs.Slices
import Monkey.Proofs.Spaced
import Monkey.Proofs.Splitting
import Monkey.Proofs.Takes
import Monkey.Proofs.Termination
import Monkey.Proofs.Tiling
import Monkey.Proofs.Window
import Monkey.Proofs.Yield
