import ToyMachine.Main
import ToyMachine.Proofs.Digits
import ToyMachine.Proofs.Refinement
import ToyMachine.Proofs.Switch
import ToyMachine.Proofs.Memory
import ToyMachine.Proofs.Atomic
import ToyMachine.Proofs.Image.Grammar
import ToyMachine.Proofs.Text.Lines
import ToyMachine.Proofs.Image.CellLine
import ToyMachine.Proofs.Image.Loading
import ToyMachine.Proofs.Image.Dump
import ToyMachine.Proofs.Console.Transcript
import ToyMachine.Proofs.RunLoop
import ToyMachine.Proofs.Overlay
import ToyMachine.Proofs.Console.Input
import ToyMachine.Proofs.Footprint
import ToyMachine.Proofs.Console.Typed
import ToyMachine.Proofs.Exchange
import ToyMachine.Proofs.Image.Append
import ToyMachine.Proofs.Highlight
import ToyMachine.Proofs.Composed
import ToyMachine.Proofs.Dialogue
import ToyMachine.Proofs.Console.Room
import ToyMachine.Proofs.SinkLimit
import ToyMachine.Proofs.Console.Reading
import ToyMachine.Proofs.SingleStep
import ToyMachine.Proofs.Disassembly
import ToyMachine.Proofs.Image.Faulty
import ToyMachine.Proofs.Retry
import ToyMachine.Proofs.Rounds
import ToyMachine.Proofs.ExitStatus
import ToyMachine.Proofs.Console.Spelling
import ToyMachine.Proofs.Console.FirstWord
import ToyMachine.Proofs.Display.Window
import ToyMachine.Proofs.Display.Table
import ToyMachine.Proofs.Block
import ToyMachine.Proofs.Destination
import ToyMachine.Proofs.Return
import ToyMachine.Proofs.Marks
import ToyMachine.Proofs.Display.Heading
import ToyMachine.Proofs.Image.Replay
import ToyMachine.Proofs.Encoding
import ToyMachine.Proofs.Console.Offered
import ToyMachine.Proofs.Simulation
import ToyMachine.Proofs.Listing
import ToyMachine.Proofs.Multiply
