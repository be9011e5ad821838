/-
Chip8.Word — integers read as signed words of 32 or 64 bits.

An integer is read only if it is such a word: nothing is cut off, and an
integer of another size is refused.
-/
namespace Chip8

/-- An integer that is no signed word of 32 bits. -/
structure NotAWord where
  value : Int
deriving DecidableEq, Repr

/-- The signed word of 32 bits that an integer is. -/
def wordOfInt (v : Int) : Except NotAWord Int32 :=
  if -2147483648 ≤ v ∧ v ≤ 2147483647 then .ok (Int32.ofInt v) else .error ⟨v⟩

/-- Whether an integer is a signed word of 64 bits. -/
def isLongWord (v : Int) : Bool := -0x8000000000000000 ≤ v && v < 0x8000000000000000

end Chip8
