/-
Chip8.Instruction — an instruction word of sixteen bits and the fields
that the operations read.

The four hexadecimal digits of a word are `opcode`, `x`, `y` and `n`; the
low byte is `nn` and the low twelve bits are `nnn`. `decode` takes any
integer and keeps its sixteen low bits in two's complement.
-/
namespace Chip8

/-- An instruction word. -/
structure Instruction where
  raw : UInt16
deriving DecidableEq, Repr

namespace Instruction

/-- The instruction in the sixteen low bits of an integer. -/
def decode (word : Int) : Instruction := ⟨UInt16.ofInt word⟩

/-- The highest digit. -/
def opcode (i : Instruction) : Fin 16 := ⟨i.raw.toNat / 4096 % 16, by omega⟩

/-- The second digit, a register number. -/
def x (i : Instruction) : Fin 16 := ⟨i.raw.toNat / 256 % 16, by omega⟩

/-- The third digit, a register number. -/
def y (i : Instruction) : Fin 16 := ⟨i.raw.toNat / 16 % 16, by omega⟩

/-- The lowest digit. -/
def n (i : Instruction) : Fin 16 := ⟨i.raw.toNat % 16, by omega⟩

/-- The low byte. -/
def nn (i : Instruction) : UInt8 := i.raw.toUInt8

/-- The low twelve bits, an address. -/
def nnn (i : Instruction) : UInt16 := i.raw &&& 0xFFF

end Instruction

end Chip8
