/-
Chip8.Fault — the conditions that stop a machine.

`Fault` lists the causes. `Fault.name` is the word a crash report uses
for the kind of fault and `Fault.message` the sentence that follows it;
addresses are shown in hexadecimal with at least three or four digits.
-/
import Chip8.Memory
import Chip8.Text.Numeral

namespace Chip8

/-- What an instruction does with a memory range. -/
inductive Access where
  | read
  | write
  | fetch
deriving DecidableEq, Repr

/-- What a halted machine was asked to do. -/
inductive Attempt where
  | boot
  | work
deriving DecidableEq, Repr

/-- Why a machine cannot go on. -/
inductive Fault where
  /-- No operation has this word; the word is shown as it was given, at any size. -/
  | unknownInstruction (word : Int)
  /-- A call to this address found all sixteen slots in use. -/
  | stackOverflow (target : Nat)
  /-- A return found no slot in use. -/
  | stackUnderflow
  /-- A range ends at this address, beyond the last byte of memory. -/
  | outOfRange (access : Access) (address : Nat)
  /-- A program of this many bytes does not fit. -/
  | programTooLarge (size : Nat)
  /-- The machine has halted for good. -/
  | halted (attempt : Attempt)
deriving DecidableEq, Repr

/-- The verb of a memory range. -/
def Access.verb : Access → String
  | .read => "read"
  | .write => "write"
  | .fetch => "fetch"

namespace Fault

/-- The kind of a fault. -/
def name : Fault → String
  | .unknownInstruction _ => "UnknownInstructionError"
  | .stackOverflow _ => "StackOverflowError"
  | .stackUnderflow => "StackUnderflowError"
  | .outOfRange _ _ => "MemoryAccessError"
  | .programTooLarge _ => "RomTooLargeError"
  | .halted _ => "MachineHaltedError"

/-- The sentence that describes a fault. -/
def message : Fault → String
  | .unknownInstruction word => "No matching handler for instruction 0x" ++ Text.hex 4 word
  | .stackOverflow target => "Stack overflow calling 0x" ++ Text.hex 3 target
  | .stackUnderflow => "Return with an empty stack"
  | .outOfRange access address =>
    "Memory " ++ access.verb ++ " out of range at 0x" ++ Text.hex 4 address
  | .programTooLarge size =>
    "ROM is " ++ Text.decimal size ++ " bytes, at most " ++ Text.decimal Memory.programLimit ++
      " fit in memory"
  | .halted .boot => "Cannot boot a halted machine"
  | .halted .work => "Machine is halted"

end Fault

end Chip8
