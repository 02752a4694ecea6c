import Scriptlet.Machine.Pool
import Scriptlet.Machine.Word
import Scriptlet.Main
import Scriptlet.Proofs.Accounts
import Scriptlet.Proofs.Backends
import Scriptlet.Proofs.Balance
import Scriptlet.Proofs.Climbing
import Scriptlet.Proofs.Composition
import Scriptlet.Proofs.Descent
import Scriptlet.Proofs.Emission
import Scriptlet.Proofs.Encoding
import Scriptlet.Proofs.Following
import Scriptlet.Proofs.Frames
import Scriptlet.Proofs.Grammar
import Scriptlet.Proofs.Heights
import Scriptlet.Proofs.Levels
import Scriptlet.Proofs.Lexical
import Scriptlet.Proofs.LineEquivariance
import Scriptlet.Proofs.Lookahead
import Scriptlet.Proofs.Operations
import Scriptlet.Proofs.Preservation
import Scriptlet.Proofs.Progress
import Scriptlet.Proofs.Reading
import Scriptlet.Proofs.Relining
import Scriptlet.Proofs.RoundTrip
import Scriptlet.Proofs.Running
import Scriptlet.Proofs.Scanning
import Scriptlet.Proofs.ScopeDiscipline
import Scriptlet.Proofs.Segments
import Scriptlet.Proofs.Simulation
import Scriptlet.Proofs.Slots
import Scriptlet.Proofs.Verifier
import Scriptlet.Proofs.WellFormed
import Scriptlet.Proofs.WordPreservation
import Scriptlet.Proofs.WordSimulation
import Scriptlet.Proofs.Comparisons
import Scriptlet.Proofs.Failures
import Scriptlet.Proofs.StaticKinds
import Scriptlet.Proofs.DefiniteDeclaration
import Scriptlet.Proofs.ConstantPool
import Scriptlet.Proofs.LineWise
import Scriptlet.Proofs.Editing
import Scriptlet.Proofs.Truncation
import Scriptlet.Proofs.SlotAllotment
import Scriptlet.Proofs.Rescanning
import Scriptlet.Proofs.CompileCommand
import Scriptlet.Proofs.ExactArithmetic
import Scriptlet.Proofs.PrefixNotation
import Scriptlet.Proofs.Demands
import Scriptlet.Proofs.Capacity
import Scriptlet.Proofs.InvalidTargets
import Scriptlet.Proofs.Diagnostics
import Scriptlet.Proofs.Sequencing
import Scriptlet.Proofs.Tracking
import Scriptlet.Proofs.Patching
