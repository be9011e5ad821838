/-
Chip8.CallStack — sixteen slots for return addresses and a pointer to the
first free one.

Pushing fills the slot at the pointer, popping takes the slot below it and
leaves zero there. The instruction set never pushes onto a full stack nor
pops an empty one; what a slot access does in that case is a parameter.
-/
import Chip8.Memory

namespace Chip8

/-- The slots of a call stack. -/
abbrev Slots := Vector UInt16 16

/-- Return addresses, and how many slots hold one. -/
structure CallStack where
  slots : Slots
  pointer : Fin 17
deriving DecidableEq

namespace CallStack

/-- The number of slots. -/
def size : Nat := 16

/-- The stack without addresses. -/
def empty : CallStack := ⟨Vector.replicate 16 0, 0⟩

/-- Put an address on top. -/
def push (outside : Slots → Int → UInt16 → Slots) (s : CallStack) (address : UInt16) : CallStack :=
  { slots := writeAt s.slots (outside s.slots) (s.pointer.val : Int) address
    pointer := ⟨min (s.pointer.val + 1) 16, by omega⟩ }

/-- The address on top. -/
def top (outside : Slots → Int → UInt16) (s : CallStack) : UInt16 :=
  readAt s.slots (outside s.slots) ((s.pointer.val : Int) - 1)

/-- Take the address on top away. -/
def pop (outside : Slots → Int → UInt16 → Slots) (s : CallStack) : CallStack :=
  { slots := writeAt s.slots (outside s.slots) ((s.pointer.val : Int) - 1) 0
    pointer := ⟨s.pointer.val - 1, by omega⟩ }

/-- The stack that holds the first sixteen of the listed addresses, the last of them on top. -/
def ofList (addresses : List UInt16) : CallStack :=
  { slots := Vector.ofFn fun k => addresses.getD k.val 0
    pointer := ⟨min addresses.length 16, by omega⟩ }

end CallStack

end Chip8
