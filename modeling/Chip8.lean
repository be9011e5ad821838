import Chip8.CommandLine.Session
import Chip8.Log.Checked
import Chip8.Machine.Headless
import Chip8.Main
import Chip8.Window
import Chip8.Proofs.Coverage
import Chip8.Proofs.Execution
import Chip8.Proofs.Bounds
import Chip8.Proofs.Blit
import Chip8.Proofs.ControlFlow
import Chip8.Proofs.Interpreter
import Chip8.Proofs.Returns
import Chip8.Proofs.History
import Chip8.Proofs.Lifecycle
import Chip8.Proofs.Preservation
import Chip8.Proofs.Outcome
import Chip8.Proofs.Stopping
import Chip8.Proofs.Addresses
import Chip8.Proofs.Sampling
import Chip8.Proofs.Recording
import Chip8.Proofs.Refinement
import Chip8.Proofs.Atomicity
import Chip8.Proofs.Halting
import Chip8.Proofs.Independence
import Chip8.Proofs.Polling
import Chip8.Proofs.Rates
import Chip8.Proofs.WriteSets
import Chip8.Proofs.Painting
import Chip8.Proofs.Firings
import Chip8.Proofs.Bursts
import Chip8.Proofs.Termination
import Chip8.Proofs.Course
import Chip8.Proofs.Moves
import Chip8.Proofs.RandomStream
import Chip8.Proofs.Timers
import Chip8.Proofs.Enlarging
import Chip8.Proofs.Handover
import Chip8.Proofs.Showing
import Chip8.Proofs.Shapes
import Chip8.Proofs.SignedWords
import Chip8.Proofs.Arithmetic
import Chip8.Proofs.Blocks
import Chip8.Proofs.NextAddress
import Chip8.Proofs.StraightLine
import Chip8.Proofs.Redrawing
import Chip8.Proofs.Priority
import Chip8.Proofs.Loading
import Chip8.Proofs.KeyWait
import Chip8.Proofs.Rendering
import Chip8.Proofs.DecimalDigits
import Chip8.Proofs.PressedKeys
import Chip8.Proofs.Columns
import Chip8.Proofs.CrashReport
