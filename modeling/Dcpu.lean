import Dcpu.Main
import Dcpu.Proofs.Listing.Decoding
import Dcpu.Proofs.Machine.Frame
import Dcpu.Proofs.Machine.Interpretation
import Dcpu.Proofs.Monitor.Rejection
import Dcpu.Proofs.Reading.Skip
import Dcpu.Proofs.Text.Numeral
import Dcpu.Proofs.Instruction.Text
import Dcpu.Proofs.Listing.Faithful
import Dcpu.Proofs.Reading.Simulation
import Dcpu.Proofs.Arithmetic.Carry
import Dcpu.Proofs.Arithmetic.Division
import Dcpu.Proofs.Arithmetic.Shift
import Dcpu.Proofs.Arithmetic.Product
import Dcpu.Proofs.Machine.Multiword
import Dcpu.Proofs.Machine.Until
import Dcpu.Proofs.Program.Tags
import Dcpu.Proofs.Machine.Stack
import Dcpu.Proofs.Text.Lines
import Dcpu.Proofs.Monitor.Display
import Dcpu.Proofs.Monitor.Transcript
import Dcpu.Proofs.Monitor.Inspection
import Dcpu.Proofs.Instruction.Length
import Dcpu.Proofs.Machine.Failure
import Dcpu.Proofs.Listing.Coverage
import Dcpu.Proofs.Monitor.Grammar
import Dcpu.Proofs.Monitor.Numeral
import Dcpu.Proofs.Memory.Loading
import Dcpu.Proofs.Machine.BlockMove
import Dcpu.Proofs.Machine.Condition
import Dcpu.Proofs.Monitor.Dump
