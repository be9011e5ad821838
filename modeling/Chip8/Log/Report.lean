/-
Chip8.Log.Report — what a machine has to say about its life, and the text
of it.

A `Report` is data: a start, an end, a crash with the registers at that
moment, or one executed instruction. `Report.level` grades it and
`Report.lines` writes it out; only the text is tied to numbers as they are
given, the data to any type of times. `Report.check` refuses a report with
a number that cannot be written.
-/
import Chip8.Instruction
import Chip8.Log.Level
import Chip8.Number
import Chip8.State

namespace Chip8

/-- An event worth a line in the log. Times and rates are of type `τ`. -/
inductive Report (τ : Type) where
  /-- A program of `size` bytes starts at two rates. -/
  | booted (size : Int) (instructionRate timerRate : τ)
  /-- A machine ends after a number of instructions and a time. -/
  | halted (reason : String) (cycles : Int) (elapsed : τ)
  /-- Something failed; the state is there unless the machine never started. -/
  | crashed (kind message : String) (state : Option State)
  /-- An instruction was executed and left the program counter at `pc`. -/
  | traced (cycles : Int) (instruction : Instruction) (pc : Int)

/-- The instructions per second of a run; a run that took no time has rate zero. -/
def ratePerSecond (cycles : Int) (elapsed : Number) : Float :=
  if 0 < elapsed then
    match elapsed with
    | .whole seconds => Text.Binary64.ofRatio cycles seconds.toNat
    | .double seconds => Text.Binary64.ofInt cycles / seconds
  else 0

/-- Program counter, address register, stack pointer and timers of a state. -/
def State.counterLine (s : State) : String :=
  "PC: 0x" ++ Text.hex 3 s.pc.toNat ++ "  I: 0x" ++ Text.hex 3 s.index.toNat ++
    "  SP: " ++ Text.decimal s.stack.pointer.val ++
    "  DT: " ++ Text.decimal s.delayTimer.toNat ++ "  ST: " ++ Text.decimal s.soundTimer.toNat

/-- The registers of a half of the register file: V0 to V7 or V8 to VF. -/
def State.registerLine (s : State) (half : Nat) : String :=
  "  ".intercalate <| ((List.finRange 16).filter fun k => k.val / 8 = half).map fun k =>
    "V" ++ Text.hex 1 k.val ++ ":" ++ Text.hex 2 (s.register k).toNat

namespace Report

/-- The grade of a report. -/
def level {τ : Type} : Report τ → Level
  | .booted .. => .info
  | .halted .. => .info
  | .crashed .. => .error
  | .traced .. => .debug

/-- The text of a report, line by line. -/
def lines : Report Number → List String
  | .booted size instructionRate timerRate =>
    ["Booted " ++ Text.integer size ++ " byte ROM (cpu " ++
      Text.Binary64.general instructionRate.toFloat ++ " Hz, timers " ++
      Text.Binary64.general timerRate.toFloat ++ " Hz)"]
  | .halted reason cycles elapsed =>
    ["Halted (" ++ reason ++ ") after " ++ Text.grouped cycles ++ " instructions, " ++
      Text.Binary64.fixed 2 elapsed.toFloat ++ "s, " ++
      Text.Binary64.fixed 0 (ratePerSecond cycles elapsed) ++ " ips"]
  | .crashed kind message state =>
    (kind ++ ": " ++ message) ::
      match state with
      | some s => [s.counterLine, s.registerLine 0, s.registerLine 1]
      | none => []
  | .traced cycles instruction pc =>
    [Text.padLeft 8 ' ' (Text.integer cycles) ++ "  " ++ Text.hex 4 instruction.raw.toNat ++
      "  PC=" ++ Text.hex 3 pc]

/-- Refuse the rate of a run that cannot be computed. -/
def checkRate (cycles : Int) (elapsed : Number) : Except Number.Overflow Unit :=
  if 0 < elapsed then
    match elapsed with
    | .whole seconds =>
      if Text.Binary64.holdsRatio cycles seconds.toNat then .ok () else .error .quotient
    | .double _ => if Text.Binary64.holds cycles then .ok () else .error .operand
  else .ok ()

/-- Refuse a report with a number that cannot be written. -/
def check : Report Number → Except Number.Overflow Unit
  | .booted _ instructionRate timerRate => do
    discard instructionRate.nearest
    discard timerRate.nearest
  | .halted _ cycles elapsed => do
    checkRate cycles elapsed
    discard elapsed.nearest
  | .crashed .. | .traced .. => .ok ()

end Report

end Chip8
