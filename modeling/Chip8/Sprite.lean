/-
Chip8.Sprite — which pixels a sprite covers.

A sprite is eight pixels wide and has one byte of memory for each of its
rows, the high bit on the left. `Sprite.covers` looks from a pixel back to
the sprite: the offset from the sprite's origin, taken round the screen,
names the row and the bit. Origins, addresses and heights are signed words
of 32 bits; the address of a row wraps at 32 bits. `Sprite.maskOfInts`
takes integers for them and says which of them it refuses.
-/
import Chip8.Memory
import Chip8.Screen
import Chip8.Word

namespace Chip8

namespace Sprite

/-- The pixels of a row. -/
def width : Nat := 8

/-- Whether a sprite sets the pixel in column `px` and row `py`. -/
def covers (outside : Memory → Int → UInt8) (memory : Memory) (address x y height : Int32)
    (px : Fin 64) (py : Fin 32) : Bool :=
  let column := ((px.val : Int) - x.toInt) % 64
  let row := ((py.val : Int) - y.toInt) % 32
  let byte := readAt memory (outside memory) (address + Int32.ofInt row).toInt
  decide (column < 8 ∧ row < height.toInt) && byte.toNat.testBit (7 - min column.toNat 7)

/-- The pixels that a sprite sets. -/
def mask (outside : Memory → Int → UInt8) (memory : Memory) (address x y height : Int32) :
    Screen :=
  Screen.ofFn (covers outside memory address x y height)

/-- The numbers that tell which pixels a sprite sets. -/
inductive Measure where
  | column
  | row
  | height
  | address
deriving DecidableEq, Repr

/-- A measure of a sprite that is no signed word of 32 bits. -/
structure Refusal where
  measure : Measure
  cause : NotAWord
deriving DecidableEq, Repr

/-- The signed word of 32 bits that a measure is. -/
def wordOfMeasure (m : Measure) (v : Int) : Except Refusal Int32 :=
  (wordOfInt v).mapError fun cause => ⟨m, cause⟩

/-- The pixels that a sprite of any place and size sets; the first of column, row, height and
address that is no signed word of 32 bits is the error. -/
def maskOfInts (outside : Memory → Int → UInt8) (memory : Memory) (address x y height : Int) :
    Except Refusal Screen := do
  let x ← wordOfMeasure .column x
  let y ← wordOfMeasure .row y
  let height ← wordOfMeasure .height height
  let address ← wordOfMeasure .address address
  return mask outside memory address x y height

end Sprite

end Chip8
