import RegisterMachine.Command.Files
import RegisterMachine.Command.World
import RegisterMachine.Main
import RegisterMachine.Proofs.Plan
import RegisterMachine.Proofs.Registers
import RegisterMachine.Proofs.Step
import RegisterMachine.Proofs.Calls
import RegisterMachine.Proofs.Faults
import RegisterMachine.Proofs.FileMachine
import RegisterMachine.Proofs.Windows
import RegisterMachine.Proofs.Access
import RegisterMachine.Proofs.HeapHistory
import RegisterMachine.Proofs.Generations
import RegisterMachine.Proofs.Store
import RegisterMachine.Proofs.Codec
import RegisterMachine.Proofs.Persistence
import RegisterMachine.Proofs.Limits
import RegisterMachine.Proofs.Words
import RegisterMachine.Proofs.Sections
import RegisterMachine.Proofs.Constants
import RegisterMachine.Proofs.Assembly
import RegisterMachine.Proofs.Linkage
import RegisterMachine.Proofs.Budget
import RegisterMachine.Proofs.Sessions
import RegisterMachine.Proofs.AssembledWindows
import RegisterMachine.Proofs.Numerals
import RegisterMachine.Proofs.Disassembly
import RegisterMachine.Proofs.Bisimulation
import RegisterMachine.Proofs.Footprint
import RegisterMachine.Proofs.World
import RegisterMachine.Proofs.Relocation
import RegisterMachine.Proofs.CompiledFiles
import RegisterMachine.Proofs.Lookup
import RegisterMachine.Proofs.Powers
import RegisterMachine.Proofs.Equivalence
import RegisterMachine.Proofs.JumpTargets
import RegisterMachine.Proofs.Rendering
import RegisterMachine.Proofs.Tokens
import RegisterMachine.Proofs.Provenance
import RegisterMachine.Proofs.ErrorPlaces
import RegisterMachine.Proofs.Calendar
import RegisterMachine.Proofs.ArrayBounds
import RegisterMachine.Proofs.Nesting
import RegisterMachine.Proofs.Encoding
import RegisterMachine.Proofs.BackPatching
import RegisterMachine.Proofs.Tokenization
import RegisterMachine.Proofs.Allocation
