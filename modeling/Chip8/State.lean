/-
Chip8.State — the registers, memory, stack, timers, picture, keys and
random source of one machine.
-/
import Chip8.CallStack
import Chip8.Keypad
import Chip8.Random
import Chip8.Screen

namespace Chip8

/-- The sixteen registers of a byte. -/
abbrev Registers := Vector UInt8 16

/-- Everything an instruction may read or change. -/
structure State where
  /-- The random source. -/
  rng : Random
  /-- The bytes. -/
  memory : Memory
  /-- The address of the next instruction. -/
  pc : UInt16
  /-- The picture. -/
  display : Screen
  /-- The return addresses. -/
  stack : CallStack
  /-- The timer that programs can read. -/
  delayTimer : UInt8
  /-- The timer of the buzzer. -/
  soundTimer : UInt8
  /-- The keys that were held when they were last looked at. -/
  keypad : Keypad
  /-- The registers V0 to VF. -/
  registers : Registers
  /-- The address register I. -/
  index : UInt16
deriving DecidableEq

namespace State

/-- The state in which a machine wakes up: the font in memory and all else cleared. -/
def initial (rng : Random) : State where
  rng := rng
  memory := Memory.initial
  pc := 0x200
  display := Screen.blank
  stack := CallStack.empty
  delayTimer := 0
  soundTimer := 0
  keypad := Keypad.none
  registers := Vector.replicate 16 0
  index := 0

/-- The value of a register. -/
def register (s : State) (k : Fin 16) : UInt8 := s.registers.get k

/-- Write a register. -/
def setRegister (s : State) (k : Fin 16) (b : UInt8) : State :=
  { s with registers := s.registers.setIfInBounds k.val b }

/-- Reading a register after a write gives the value written there and the old value elsewhere. -/
theorem register_setRegister (s : State) (k j : Fin 16) (b : UInt8) :
    (s.setRegister k b).register j = if k = j then b else s.register j := by
  have h : (s.setRegister k b).register j = if k.val = j.val then b else s.register j :=
    Vector.getElem_setIfInBounds j.isLt
  simpa only [Fin.ext_iff] using h

end State

end Chip8
