/-
Chip8.Frame — pictures on their way from a machine to whoever shows them.

A `Frame` is an array of pixels of any shape; only one of 64 columns and
32 rows is a picture. A `FrameBuffer` keeps the latest picture published
and counts them; a frame of another shape is refused and changes neither.
-/
import Chip8.Screen
import Chip8.Text.Numeral

namespace Chip8

/-- An array of pixels of any shape, read by one index for each axis. -/
structure Frame where
  shape : List Nat
  lit : List Nat → Bool

namespace Frame

/-- The shape of a picture. -/
def pictureShape : List Nat := [Screen.width, Screen.height]

/-- The frame of a picture. -/
def ofScreen (s : Screen) : Frame where
  shape := pictureShape
  lit
    | [x, y] => if h : x < 64 ∧ y < 32 then s.get ⟨x, h.1⟩ ⟨y, h.2⟩ else false
    | _ => false

/-- The picture in a frame of the right shape. -/
def toScreen? (f : Frame) : Option Screen :=
  if f.shape = pictureShape then some (Screen.ofFn fun x y => f.lit [x.val, y.val]) else none

/-- A picture is read back from its frame. -/
theorem toScreen?_ofScreen (s : Screen) : (ofScreen s).toScreen? = some s := by
  simp only [toScreen?, ofScreen, if_true, Option.some.injEq]
  apply Screen.ext
  intro x y
  simp

end Frame

/-- The text of a shape: the lengths in parentheses; a comma follows a single one. -/
def shapeText (shape : List Nat) : String :=
  match shape with
  | [n] => "(" ++ Text.decimal n ++ ",)"
  | _ => "(" ++ ", ".intercalate (shape.map Text.decimal) ++ ")"

/-- A frame was refused for its shape. -/
structure FrameError where
  shape : List Nat
deriving DecidableEq, Repr

/-- The sentence that describes why a frame was refused. -/
def FrameError.message (e : FrameError) : String :=
  "Expected frame shape " ++ shapeText Frame.pictureShape ++ ", got " ++ shapeText e.shape

/-- The latest picture and the number of pictures published. -/
structure FrameBuffer where
  latest : Screen
  received : Nat

namespace FrameBuffer

/-- Nothing was published. -/
def empty : FrameBuffer := ⟨Screen.blank, 0⟩

/-- Publish a picture. -/
def receive (b : FrameBuffer) (s : Screen) : FrameBuffer := ⟨s, b.received + 1⟩

/-- Publish a frame. -/
def publish (b : FrameBuffer) (f : Frame) : Except FrameError FrameBuffer :=
  match f.toScreen? with
  | some s => .ok (b.receive s)
  | none => .error ⟨f.shape⟩

/-- Publish frames in order, up to the first that is refused. -/
def publishAll (b : FrameBuffer) : List Frame → FrameBuffer × Option FrameError
  | [] => (b, none)
  | f :: rest =>
    match b.publish f with
    | .ok b => publishAll b rest
    | .error e => (b, some e)

end FrameBuffer

end Chip8
