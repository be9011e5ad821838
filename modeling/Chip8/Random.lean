/-
Chip8.Random — the source of random bytes.

The source is a key of two words of 32 bits. `Random.mix` is the
Threefry-2x32 block function with twenty rounds: it scrambles two words
under a key. A key splits into the key that follows it and a subkey, the
images of the counters (0, 0) and (0, 1), and the subkey gives the byte,
so the stream of bytes depends on the first key alone.
-/
import Chip8.Word

namespace Chip8

/-- The state of the random source. -/
structure Random where
  first : UInt32
  second : UInt32
deriving DecidableEq, Repr

namespace Random

/-- A word rotated to the left by `r` bits, for `r` from 1 to 31. -/
def rotate (x r : UInt32) : UInt32 := (x <<< r) ||| (x >>> (32 - r))

/-- One round: add, rotate, exclude. -/
def round (r : UInt32) (x : UInt32 × UInt32) : UInt32 × UInt32 :=
  let a := x.1 + x.2
  (a, rotate x.2 r ^^^ a)

/-- Four rounds with given rotations, then two key words and the group's number are added. -/
def group (rotations : List UInt32) (k l number : UInt32) (x : UInt32 × UInt32) :
    UInt32 × UInt32 :=
  let y := rotations.foldl (fun x r => round r x) x
  (y.1 + k, y.2 + l + number)

/-- The rotations of the odd-numbered groups. -/
def rotationsA : List UInt32 := [13, 15, 26, 6]

/-- The rotations of the even-numbered groups. -/
def rotationsB : List UInt32 := [17, 29, 16, 24]

/-- Scramble two words under a key: five groups of four rounds. -/
def mix (key : Random) (a b : UInt32) : Random :=
  let k := key.first
  let l := key.second
  let m := k ^^^ l ^^^ 0x1BD11BDA
  let x := (a + k, b + l)
  let x := group rotationsA l m 1 x
  let x := group rotationsB m k 2 x
  let x := group rotationsA k l 3 x
  let x := group rotationsB l m 4 x
  let x := group rotationsA m k 5 x
  ⟨x.1, x.2⟩

/-- The source of a seed, which counts modulo 2^32. -/
def ofSeed (seed : Int) : Random := ⟨0, UInt32.ofInt seed⟩

/-- Whether a seed is a signed word of 64 bits. -/
def isSeed (seed : Int) : Bool := isLongWord seed

/-- The source after one draw. -/
def next (r : Random) : Random := r.mix 0 0

/-- The byte that a source draws. -/
def byte (r : Random) : UInt8 :=
  let bits := ((r.mix 0 1).mix 0 1).mix 0 0
  (bits.first ^^^ bits.second).toUInt8

end Random

end Chip8
