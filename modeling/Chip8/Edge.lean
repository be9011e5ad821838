/-
Chip8.Edge — what an access outside memory or outside the call stack does.

The operations compute addresses for all pixels of the screen and for all
sixteen registers, also where they have no use for them, and an index may
then lie outside. An `Edge` says what such an access does, one rule for
each place; `Edge.standard` is the machine's choice.
-/
import Chip8.CallStack

namespace Chip8

/-- A rule for every access that may lie outside its array. -/
structure Edge where
  /-- The byte of a sprite row outside memory. -/
  sprite : Memory → Int → UInt8
  /-- The byte loaded from outside memory. -/
  fill : Memory → Int → UInt8
  /-- Memory after a register is stored outside it. -/
  store : Memory → Int → UInt8 → Memory
  /-- Memory after a decimal digit is stored outside it. -/
  digit : Memory → Int → UInt8 → Memory
  /-- The slots after a write outside them. -/
  slot : Slots → Int → UInt16 → Slots
  /-- The address read from outside the slots. -/
  address : Slots → Int → UInt16

namespace Edge

/-- Sprite rows take the nearest byte of memory, loads give zero, writes do nothing, and the
slots read as zero. -/
def standard : Edge where
  sprite m a := if a < 0 then m[0] else m[4095]
  fill _ _ := 0
  store m _ _ := m
  digit m _ _ := m
  slot s _ _ := s
  address _ _ := 0

end Edge

end Chip8
