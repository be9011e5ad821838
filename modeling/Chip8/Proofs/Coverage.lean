/-
Chip8.Proofs.Coverage — the pixels of a sprite, from the sprite's side.

`Sprite.covers` starts at a pixel and asks for the row and the column of
the sprite that land on it. `get_mask_iff` is the other direction: a
sprite that lies in memory covers exactly the places at which its set
bits land, column `c` of row `r` at the origin plus `(c, r)`, taken round
the screen. The rule for accesses outside memory does not occur in it, so
the pixels of such a sprite do not depend on that rule.

`place_injective` says that no two bits of one sprite land on one pixel:
a sprite is narrower and lower than the screen.
-/
import Chip8.Execute

namespace Chip8

namespace Sprite

/-- Whether column `c` of the sprite row at an address is set; bit 7 is the leftmost column. -/
def isSet (memory : Memory) (address c : Nat) : Bool :=
  (memory.getD address 0).toNat.testBit (7 - c)

/-- The pixel at which column `c` and row `r` of a sprite with the origin `(x, y)` land. -/
def place (x y c r : Nat) : Fin 64 × Fin 32 :=
  (⟨(x + c) % 64, Nat.mod_lt _ (by decide)⟩, ⟨(y + r) % 32, Nat.mod_lt _ (by decide)⟩)

/-- Whether a sprite of `n` rows at an address lies in memory. -/
def InMemory (address n : Nat) : Prop := n = 0 ∨ address + n - 1 ≤ 0xFFF

theorem place_injective {x y c r c' r' : Nat} (hc : c < 8) (hc' : c' < 8) (hr : r < 16)
    (hr' : r' < 16) (h : place x y c r = place x y c' r') : c = c' ∧ r = r' := by
  simp only [place, Prod.mk.injEq, Fin.mk.injEq] at h
  omega

/-- A row address in memory reads the byte there, whatever holds outside. -/
theorem readAt_row (outside : Int → UInt8) (memory : Memory) {address : Nat} {row : Int}
    (ha : address < 65536) (hrow : 0 ≤ row) (h : address + row.toNat < 4096) :
    readAt memory outside (Int32.ofNat address + Int32.ofInt row).toInt =
      memory.getD (address + row.toNat) 0 := by
  have haddr : (Int32.ofNat address).toInt = address := Int32.toInt_ofNat_of_lt (by omega)
  have hofs : (Int32.ofInt row).toInt = row := Int32.toInt_ofInt_of_le (by omega) (by omega)
  have hsum : (Int32.ofNat address + Int32.ofInt row).toInt = (address + row.toNat : Nat) := by
    rw [Int32.toInt_add, haddr, hofs, Int.bmod_eq_of_le_mul_two (by omega) (by omega)]
    omega
  rw [hsum, readAt_of_lt memory outside h]
  simp [Vector.getD, Array.getD, h]

/-- A sprite that lies in memory covers exactly the places of its set bits. -/
theorem covers_iff (outside : Memory → Int → UInt8) (memory : Memory) {address x y n : Nat}
    (ha : address < 65536) (hx : x < 256) (hy : y < 256) (hn : n < 16)
    (hin : InMemory address n) (px : Fin 64) (py : Fin 32) :
    covers outside memory (Int32.ofNat address) (Int32.ofNat x) (Int32.ofNat y) (Int32.ofNat n)
        px py = true ↔
      ∃ r < n, ∃ c < 8, isSet memory (address + r) c = true ∧ place x y c r = (px, py) := by
  have hx' : (Int32.ofNat x).toInt = x := Int32.toInt_ofNat_of_lt (by omega)
  have hy' : (Int32.ofNat y).toInt = y := Int32.toInt_ofNat_of_lt (by omega)
  have hn' : (Int32.ofNat n).toInt = n := Int32.toInt_ofNat_of_lt (by omega)
  have hpx := px.isLt
  have hpy := py.isLt
  unfold InMemory at hin
  simp only [covers, hx', hy', hn', Bool.and_eq_true, decide_eq_true_eq]
  constructor
  · rintro ⟨⟨hcol, hrow⟩, hbit⟩
    -- The offsets from the origin name the row and the column.
    refine ⟨(((py.val : Int) - y) % 32).toNat, by omega, (((px.val : Int) - x) % 64).toNat,
      by omega, ?_, ?_⟩
    · rw [readAt_row _ memory ha (by omega) (by omega), Nat.min_eq_left (by omega)] at hbit
      exact hbit
    · simp only [place, Prod.ext_iff, Fin.ext_iff]
      omega
  · rintro ⟨r, hr, c, hc, hbit, hplace⟩
    simp only [place, Prod.ext_iff, Fin.ext_iff] at hplace
    have hcol : ((px.val : Int) - x) % 64 = c := by omega
    have hrow : ((py.val : Int) - y) % 32 = r := by omega
    rw [hcol, hrow]
    refine ⟨by omega, ?_⟩
    rw [readAt_row _ memory ha (by omega) (by omega), Int.toNat_natCast, Int.toNat_natCast,
      Nat.min_eq_left (by omega)]
    exact hbit

end Sprite

namespace State

/-- The pixels that the sprite at I covers when it is drawn at VX and VY with `n` rows. -/
def spriteMask (edge : Edge) (s : State) (x y n : Fin 16) : Screen :=
  Sprite.mask edge.sprite s.memory (Int32.ofNat s.index.toNat)
    (Int32.ofNat (s.register x).toNat) (Int32.ofNat (s.register y).toNat) (Int32.ofNat n.val)

theorem get_spriteMask_iff (edge : Edge) (s : State) (x y n : Fin 16)
    (hin : Sprite.InMemory s.index.toNat n.val) (px : Fin 64) (py : Fin 32) :
    (s.spriteMask edge x y n).get px py = true ↔
      ∃ r < n.val, ∃ c < 8, Sprite.isSet s.memory (s.index.toNat + r) c = true ∧
        Sprite.place (s.register x).toNat (s.register y).toNat c r = (px, py) := by
  rw [spriteMask, Sprite.mask, Screen.get_ofFn]
  exact Sprite.covers_iff edge.sprite s.memory s.index.toNat_lt (s.register x).toNat_lt
    (s.register y).toNat_lt n.isLt hin px py

/-- The pixels of a sprite in memory do not depend on what lies outside memory. -/
theorem spriteMask_edge (edge edge' : Edge) (s : State) (x y n : Fin 16)
    (hin : Sprite.InMemory s.index.toNat n.val) :
    s.spriteMask edge x y n = s.spriteMask edge' x y n := by
  apply Screen.ext
  intro px py
  rw [Bool.eq_iff_iff, get_spriteMask_iff edge s x y n hin, get_spriteMask_iff edge' s x y n hin]

/-- Drawing inverts the pixels of the sprite and leaves the collision in VF. -/
theorem drawSprite_eq (edge : Edge) (s : State) (x y n : Fin 16) :
    s.drawSprite edge x y n =
      { s.setRegister 15 (if s.display.overlaps (s.spriteMask edge x y n) then 1 else 0) with
        display := s.display.invert (s.spriteMask edge x y n) } := rfl

end State

end Chip8
