/-
Chip8.Render — pictures as images in colour.

An `Image` is a list of rows of colours. A picture becomes an image of 32
rows and 64 columns in two colours, and `Image.enlarge` repeats every
pixel and every row, so one pixel of the picture becomes a square. The
shape of a frame is checked first, then the scale, then the colours, and
last whether the scale is a number of repetitions: those are counted in
signed words of 64 bits (`Image.magnify`).
-/
import Chip8.Frame
import Chip8.Word

namespace Chip8

/-- A colour by its three components. -/
structure Color where
  red : UInt8
  green : UInt8
  blue : UInt8
deriving DecidableEq, Repr

/-- The colours of lit and dark pixels. -/
structure Palette where
  on : Color
  off : Color
deriving DecidableEq, Repr

namespace Palette

/-- The palettes that have a name. -/
def named : List (String × Palette) :=
  [("octavm", ⟨⟨179, 102, 184⟩, ⟨45, 25, 61⟩⟩),
   ("classic", ⟨⟨0, 255, 0⟩, ⟨0, 0, 0⟩⟩),
   ("amber", ⟨⟨255, 176, 0⟩, ⟨0, 0, 0⟩⟩),
   ("white", ⟨⟨255, 255, 255⟩, ⟨0, 0, 0⟩⟩),
   ("blue", ⟨⟨0, 255, 255⟩, ⟨0, 0, 64⟩⟩)]

/-- The name of the palette that is taken when none is named. -/
def defaultName : String := "octavm"

/-- A name that no palette has. -/
structure UnknownName where
  name : String
deriving DecidableEq, Repr

/-- The sentence that describes an unknown name; it lists the names there are. -/
def UnknownName.message (e : UnknownName) : String :=
  "Unknown color scheme '" ++ e.name ++ "'. Available: [" ++
    ", ".intercalate (named.map fun p => "'" ++ p.1 ++ "'") ++ "]"

/-- The palette with a name. -/
def find (name : String) : Except UnknownName Palette :=
  match named.lookup name with
  | some p => .ok p
  | none => .error ⟨name⟩

end Palette

/-- An image by its rows from top to bottom. -/
structure Image where
  rows : List (List Color)
deriving DecidableEq

namespace Image

/-- The number of rows. -/
def height (i : Image) : Nat := i.rows.length

/-- The number of columns. -/
def width (i : Image) : Nat := (i.rows.headD []).length

/-- The colour in row `row` and column `column`. -/
def pixel? (i : Image) (row column : Nat) : Option Color :=
  (i.rows[row]?).bind fun r => r[column]?

/-- The image of a picture, one pixel for a pixel. -/
def ofScreen (s : Screen) (p : Palette) : Image :=
  ⟨s.rows.map fun r => r.map fun lit => if lit then p.on else p.off⟩

/-- Repeat every entry of a list. -/
def stretch {α : Type} (n : Nat) (xs : List α) : List α := xs.flatMap (List.replicate n)

/-- The image in which every pixel is a square of side `n`. -/
def enlarge (n : Nat) (i : Image) : Image := ⟨stretch n (i.rows.map (stretch n))⟩

/-- The image with rows and columns exchanged. -/
def transpose (i : Image) : Image :=
  ⟨i.rows.foldr (List.zipWith List.cons) (List.replicate i.width [])⟩

end Image

/-- Why a frame cannot be rendered. -/
inductive RenderError where
  | shape (lengths : List Nat)
  | scale (factor : Int)
  /-- A component of a colour that is no byte. -/
  | component (value : Int)
  /-- A component of a colour that is no signed word of 64 bits either. -/
  | longComponent (value : Int)
  /-- A colour of this many components, for this many pixels. -/
  | arity (components pixels : Nat)
  /-- A number of repetitions that is no signed word of 64 bits. -/
  | repeats (count : Int)
deriving DecidableEq, Repr

/-- The sentence that describes why a frame cannot be rendered. -/
def RenderError.message : RenderError → String
  | .shape lengths =>
    "Expected display shape " ++ shapeText Frame.pictureShape ++ ", got " ++ shapeText lengths
  | .scale factor => "Scale must be at least 1, got " ++ Text.integer factor
  | .component value => "Color component " ++ Text.integer value ++ " is no byte"
  | .longComponent value => "Color component " ++ Text.integer value ++ " is no word"
  | .arity components pixels =>
    "shape mismatch: value array of shape " ++ shapeText [components] ++
      " could not be broadcast to indexing result of shape (" ++ Text.decimal pixels ++ ",3)"
  | .repeats count => "Cannot repeat a pixel " ++ Text.integer count ++ " times"

/-- A component of a colour, given as any integer. -/
def Color.component (v : Int) : Except RenderError UInt8 :=
  if 0 ≤ v ∧ v < 256 then .ok (UInt8.ofInt v)
  else if isLongWord v then .error (.component v)
  else .error (.longComponent v)

/-- A colour by its components, three or one that stands for all three; `pixels` pixels are to
take it. -/
def Color.ofInts (pixels : Nat) (components : List Int) : Except RenderError Color := do
  match ← components.mapM component with
  | [v] => return ⟨v, v, v⟩
  | [red, green, blue] => return ⟨red, green, blue⟩
  | other => throw (.arity other.length pixels)

/-- Refuse a scale below one. -/
def checkScale (scale : Int) : Except RenderError Unit :=
  if scale < 1 then .error (.scale scale) else .ok ()

/-- The image in which every pixel is a square, if the repetitions that its side asks for can be
counted. -/
def Image.magnify (i : Image) (side : Int) : Except RenderError Image :=
  if isLongWord side then .ok (i.enlarge side.toNat) else .error (.repeats side)

/-- The image of a picture at a scale with rows and columns exchanged: its rows are the columns
of the picture. -/
def renderColumns (s : Screen) (scale : Int) (p : Palette) : Except RenderError Image := do
  checkScale scale
  (Image.ofScreen s p).transpose.magnify scale

/-- The image of a frame at a scale. Of the colours the lit one is checked first. -/
def renderFrame (f : Frame) (scale : Int) (on off : List Int) : Except RenderError Image :=
  match f.toScreen? with
  | none => .error (.shape f.shape)
  | some s => do
    checkScale scale
    let on ← Color.ofInts s.litCount on
    let off ← Color.ofInts (Screen.width * Screen.height - s.litCount) off
    (Image.ofScreen s ⟨on, off⟩).magnify scale

end Chip8
