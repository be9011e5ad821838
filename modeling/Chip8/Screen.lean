/-
Chip8.Screen — the picture of 64 columns and 32 rows of lit or dark
pixels.

A `Screen` is read through `get` and made through `ofFn`; `get_ofFn` and
`ext` say that these two describe it completely, and every operation is
stated through them. The columns wrap at 64 and the rows at 32.
-/
namespace Chip8

/-- A picture, stored by columns. -/
structure Screen where
  columns : Vector (Vector Bool 32) 64
deriving DecidableEq

namespace Screen

/-- The number of columns. -/
def width : Nat := 64

/-- The number of rows. -/
def height : Nat := 32

/-- The picture with a given colour at each place. -/
def ofFn (f : Fin 64 → Fin 32 → Bool) : Screen :=
  ⟨Vector.ofFn fun x => Vector.ofFn (f x)⟩

/-- Whether the pixel in column `x` and row `y` is lit. -/
def get (s : Screen) (x : Fin 64) (y : Fin 32) : Bool := s.columns[x][y]

@[simp] theorem get_ofFn (f : Fin 64 → Fin 32 → Bool) (x : Fin 64) (y : Fin 32) :
    (ofFn f).get x y = f x y := by
  simp [ofFn, get]

/-- Pictures that agree in every pixel are equal. -/
theorem ext {s t : Screen} (h : ∀ x y, s.get x y = t.get x y) : s = t := by
  obtain ⟨s⟩ := s
  obtain ⟨t⟩ := t
  congr 1
  apply Vector.ext
  intro x hx
  apply Vector.ext
  intro y hy
  exact h ⟨x, hx⟩ ⟨y, hy⟩

/-- The dark picture. -/
def blank : Screen := ofFn fun _ _ => false

/-- Invert the pixels that a mask covers. -/
def invert (s mask : Screen) : Screen := ofFn fun x y => s.get x y ^^ mask.get x y

/-- Whether a mask covers a lit pixel. -/
def overlaps (s mask : Screen) : Bool :=
  (List.finRange 64).any fun x => (List.finRange 32).any fun y => s.get x y && mask.get x y

@[simp] theorem get_blank (x : Fin 64) (y : Fin 32) : blank.get x y = false := by
  simp [blank]

@[simp] theorem get_invert (s mask : Screen) (x : Fin 64) (y : Fin 32) :
    (s.invert mask).get x y = (s.get x y ^^ mask.get x y) := by
  simp [invert]

theorem overlaps_iff (s mask : Screen) :
    s.overlaps mask = true ↔ ∃ x y, s.get x y = true ∧ mask.get x y = true := by
  simp [overlaps]

/-- The picture in which exactly the listed pixels are lit. -/
def ofLit (points : List (Nat × Nat)) : Screen :=
  ofFn fun x y => points.contains (x.val, y.val)

/-- The pixels of one row, from left to right. -/
def row (s : Screen) (y : Fin 32) : List Bool := (List.finRange 64).map fun x => s.get x y

/-- The rows, from top to bottom. -/
def rows (s : Screen) : List (List Bool) := (List.finRange 32).map s.row

/-- The number of lit pixels. -/
def litCount (s : Screen) : Nat :=
  ((List.finRange 64).flatMap fun x => (List.finRange 32).filter (s.get x)).length

end Screen

end Chip8
