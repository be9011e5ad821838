/-
Chip8.Alu — the arithmetic and logic of the 8XYN operations, on signed
words of 32 bits.

`Alu.apply` maps two operands to a result and a flag. Addition and
subtraction wrap at 32 bits and the right shift keeps the sign. The flag
is taken from the operands or from the sum before it is cut to a byte: a
carry is a sum above 255, a subtraction sets its flag only if the number
subtracted is strictly the smaller one, and a shift gives the bit that it
drops.
-/
import Chip8.Word

namespace Chip8

/-- A function of two register values. -/
inductive Alu where
  | set
  | or
  | and
  | xor
  | add
  | subtract
  | shiftRight
  | subtractReverse
  | shiftLeft
deriving DecidableEq, Repr

namespace Alu

/-- The truth value as a flag. -/
def flag (b : Bool) : Int32 := if b then 1 else 0

/-- The result and the flag of a function. -/
def apply : Alu → Int32 → Int32 → Int32 × Int32
  | .set, _, y => (y, 0)
  | .or, x, y => (x ||| y, 0)
  | .and, x, y => (x &&& y, 0)
  | .xor, x, y => (x ^^^ y, 0)
  | .add, x, y => ((x + y) &&& 0xFF, flag (x + y > 0xFF))
  | .subtract, x, y => ((x - y) &&& 0xFF, flag (x > y))
  | .shiftRight, x, _ => (x >>> 1, x &&& 1)
  | .subtractReverse, x, y => ((y - x) &&& 0xFF, flag (y > x))
  | .shiftLeft, x, _ => ((x <<< 1) &&& 0xFF, (x &&& 0x80) >>> 7)

/-- Whether the operation writes the flag to register F. -/
def setsFlag : Alu → Bool
  | .set | .or | .and | .xor => false
  | .add | .subtract | .shiftRight | .subtractReverse | .shiftLeft => true

/-- Whether a function reads its first operand. -/
def readsFirst : Alu → Bool
  | .set => false
  | _ => true

/-- Whether a function reads its second operand. -/
def readsSecond : Alu → Bool
  | .shiftRight | .shiftLeft => false
  | _ => true

/-- The result and the flag for operands of any size; the first operand that is read and is no
signed word of 32 bits is the error. -/
def evaluate (f : Alu) (x y : Int) : Except NotAWord (Int32 × Int32) := do
  let a ← if f.readsFirst then wordOfInt x else pure 0
  let b ← if f.readsSecond then wordOfInt y else pure 0
  return f.apply a b

end Alu

end Chip8
