/-
Chip8.Proofs.Blit — drawing a sprite is the plain pixel loop.

`Sprite.blit` is the loop that a reader of the instruction set has in
mind: row by row from the top, in each row column by column from the
left, toggle the pixel at which a set bit lands, and remember whether a
lit pixel went dark. `draw_eq_blit` says that DXYN, which works on all
2048 pixels at once, does exactly this.

The loop is first written as one pass over the list of the pixels that it
toggles (`blit_eq_foldl`). No pixel occurs in that list twice
(`nodup_toggled`), and that is what the rest depends on: `foldl_toggle`
shows that such a pass inverts exactly the listed pixels, and that a lit
pixel goes dark in it exactly if one of them was lit at the beginning.
-/
import Mathlib.Data.List.Nodup
import Chip8.Proofs.Coverage
import Chip8.Proofs.Execution

namespace Chip8

/-! ## Toggling pixels one by one -/

/-- A picture that is drawn on pixel by pixel, and whether a lit pixel has gone dark. -/
structure Canvas where
  picture : Screen
  erased : Bool

namespace Canvas

/-- Toggle one pixel. -/
def toggle (c : Canvas) (p : Fin 64 × Fin 32) : Canvas where
  picture := Screen.ofFn fun x y => c.picture.get x y ^^ decide ((x, y) = p)
  erased := c.erased || c.picture.get p.1 p.2

/-- Toggling distinct pixels inverts each of them; a lit pixel goes dark exactly if one of them
was lit before the first toggle. -/
theorem foldl_toggle (l : List (Fin 64 × Fin 32)) (hl : l.Nodup) (c : Canvas) :
    (∀ x y, (l.foldl toggle c).picture.get x y = (c.picture.get x y ^^ l.contains (x, y))) ∧
    ((l.foldl toggle c).erased = true ↔
      c.erased = true ∨ ∃ p ∈ l, c.picture.get p.1 p.2 = true) := by
  induction l generalizing c with
  | nil => simp
  | cons p rest ih =>
    obtain ⟨hp, hrest⟩ := List.nodup_cons.mp hl
    obtain ⟨hget, herased⟩ := ih hrest (c.toggle p)
    rw [List.foldl_cons]
    constructor
    · intro x y
      rw [hget, toggle, Screen.get_ofFn]
      by_cases hxy : (x, y) = p
      · simp [hxy, hp]
      · simp [hxy]
    · -- A pixel of the rest is not the one just toggled, so it is as lit as before.
      have hsame : ∀ q ∈ rest, (c.toggle p).picture.get q.1 q.2 = c.picture.get q.1 q.2 := by
        intro q hq
        have hne : q ≠ p := fun h => hp (h ▸ hq)
        simp [toggle, hne]
      rw [herased]
      constructor
      · rintro (h | ⟨q, hq, hlit⟩)
        · rw [toggle, Bool.or_eq_true] at h
          rcases h with h | h
          · exact .inl h
          · exact .inr ⟨p, List.mem_cons_self, h⟩
        · exact .inr ⟨q, List.mem_cons_of_mem p hq, hsame q hq ▸ hlit⟩
      · rintro (h | ⟨q, hq, hlit⟩)
        · exact .inl (by rw [toggle, h, Bool.true_or])
        · rcases List.mem_cons.mp hq with rfl | hq
          · exact .inl (by rw [toggle, hlit, Bool.or_true])
          · exact .inr ⟨q, hq, (hsame q hq).trans hlit⟩

end Canvas

/-! ## The pixel loop -/

namespace Sprite

/-- Draw a sprite of `n` rows with the origin `(x, y)`, pixel by pixel. -/
def blit (memory : Memory) (address x y n : Nat) (picture : Screen) : Canvas :=
  (List.range n).foldl (fun canvas r =>
    (List.range 8).foldl (fun canvas c =>
      if isSet memory (address + r) c then canvas.toggle (place x y c r) else canvas) canvas)
    ⟨picture, false⟩

/-- The pixels that the loop toggles, in their order. -/
def toggled (memory : Memory) (address x y n : Nat) : List (Fin 64 × Fin 32) :=
  (List.range n).flatMap fun r =>
    ((List.range 8).filter (isSet memory (address + r))).map fun c => place x y c r

variable (memory : Memory) (address x y n : Nat)

theorem blit_eq_foldl (picture : Screen) :
    blit memory address x y n picture =
      (toggled memory address x y n).foldl Canvas.toggle ⟨picture, false⟩ := by
  rw [blit, toggled, List.foldl_flatMap]
  congr 1
  funext canvas r
  rw [List.foldl_map, List.foldl_filter]

theorem mem_toggled_iff (p : Fin 64 × Fin 32) :
    p ∈ toggled memory address x y n ↔
      ∃ r < n, ∃ c < 8, isSet memory (address + r) c = true ∧ place x y c r = p := by
  simp only [toggled, List.mem_flatMap, List.mem_map, List.mem_filter, List.mem_range, and_assoc]

/-- No pixel is toggled twice: a sprite is narrower and lower than the screen. -/
theorem nodup_toggled (hn : n ≤ 16) : (toggled memory address x y n).Nodup := by
  rw [toggled, List.nodup_flatMap]
  constructor
  · intro r hr
    have hr' := List.mem_range.mp hr
    refine (List.nodup_range.filter _).map_on ?_
    intro c hc c' hc' h
    have hc := List.mem_range.mp (List.mem_of_mem_filter hc)
    have hc' := List.mem_range.mp (List.mem_of_mem_filter hc')
    exact (place_injective hc hc' (by omega) (by omega) h).1
  · refine List.nodup_range.imp_of_mem ?_
    intro r r' hr hr' hne p hp hp'
    have hr := List.mem_range.mp hr
    have hr' := List.mem_range.mp hr'
    obtain ⟨c, hc, rfl⟩ := List.mem_map.mp hp
    obtain ⟨c', hc', h⟩ := List.mem_map.mp hp'
    have hc := List.mem_range.mp (List.mem_of_mem_filter hc)
    have hc' := List.mem_range.mp (List.mem_of_mem_filter hc')
    exact hne (place_injective hc' hc (by omega) (by omega) h).2.symm

end Sprite

/-! ## The loop and the mask -/

namespace State

variable (edge : Edge) (s : State) (x y n : Fin 16)

/-- The sprite at I, drawn at VX and VY by the pixel loop. -/
def blit : Canvas :=
  Sprite.blit s.memory s.index.toNat (s.register x).toNat (s.register y).toNat n.val s.display

/-- The pixels that the loop toggles are those of the mask. -/
theorem mem_toggled_iff_get_spriteMask (hin : Sprite.InMemory s.index.toNat n.val)
    (px : Fin 64) (py : Fin 32) :
    (px, py) ∈ Sprite.toggled s.memory s.index.toNat (s.register x).toNat (s.register y).toNat
        n.val ↔ (s.spriteMask edge x y n).get px py = true := by
  rw [Sprite.mem_toggled_iff, s.get_spriteMask_iff edge x y n hin]

/-- Inverting the mask gives the picture of the loop. -/
theorem invert_spriteMask (hin : Sprite.InMemory s.index.toNat n.val) :
    s.display.invert (s.spriteMask edge x y n) = (s.blit x y n).picture := by
  apply Screen.ext
  intro px py
  have hmem := s.mem_toggled_iff_get_spriteMask edge x y n hin px py
  have hnodup := Sprite.nodup_toggled s.memory s.index.toNat (s.register x).toNat
    (s.register y).toNat n.val (by omega)
  rw [Screen.get_invert, blit, Sprite.blit_eq_foldl, (Canvas.foldl_toggle _ hnodup _).1 px py,
    Bool.eq_iff_iff.mpr (List.contains_iff_mem.trans hmem)]

/-- The mask covers a lit pixel exactly if the loop makes one go dark. -/
theorem overlaps_spriteMask (hin : Sprite.InMemory s.index.toNat n.val) :
    s.display.overlaps (s.spriteMask edge x y n) = (s.blit x y n).erased := by
  have hnodup := Sprite.nodup_toggled s.memory s.index.toNat (s.register x).toNat
    (s.register y).toNat n.val (by omega)
  rw [Bool.eq_iff_iff, Screen.overlaps_iff, blit, Sprite.blit_eq_foldl,
    (Canvas.foldl_toggle _ hnodup _).2]
  constructor
  · rintro ⟨px, py, hlit, hmask⟩
    exact .inr ⟨(px, py), (s.mem_toggled_iff_get_spriteMask edge x y n hin px py).mpr hmask, hlit⟩
  · rintro (h | ⟨⟨px, py⟩, hp, hlit⟩)
    · cases h
    · exact ⟨px, py, hlit, (s.mem_toggled_iff_get_spriteMask edge x y n hin px py).mp hp⟩

/-- **Drawing is the pixel loop.** A sprite that lies in memory is drawn as by the loop, with VX and
VY as they were before, and VF tells whether a lit pixel went dark in it. The loop toggles no pixel
twice, and without rows it does nothing. -/
theorem draw_eq_blit (word : Int) (hword : (Instruction.decode word).opcode = 0xD)
    (hin : Sprite.InMemory s.index.toNat (Instruction.decode word).n.val) :
    let i := Instruction.decode word
    let canvas := s.blit i.x i.y i.n
    let pixels := Sprite.toggled s.memory s.index.toNat (s.register i.x).toNat
      (s.register i.y).toNat i.n.val
    s.execute word =
        .ok { s.setRegister 15 (if canvas.erased then 1 else 0) with display := canvas.picture } ∧
      canvas = pixels.foldl Canvas.toggle ⟨s.display, false⟩ ∧ pixels.Nodup ∧
      (i.n = 0 → canvas.picture = s.display ∧ canvas.erased = false) := by
  intro i canvas pixels
  refine ⟨?_, Sprite.blit_eq_foldl .., Sprite.nodup_toggled _ _ _ _ _ (by omega), ?_⟩
  · refine (executeWith_eq_ok_iff Edge.standard s _ word).mpr ⟨.draw, ?_, ?_, ?_⟩
    · exact (firstMatch_decode word).symm.trans (firstMatch_draw hword)
    · exact (Access.permit_eq_ok_iff ..).mpr hin
    · rw [Operation.perform, drawSprite_eq, s.invert_spriteMask _ _ _ _ hin,
        s.overlaps_spriteMask _ _ _ _ hin]
  · intro hn
    have hrows : canvas = ⟨s.display, false⟩ := by
      simp only [canvas, blit, hn]
      rfl
    rw [hrows]
    exact ⟨rfl, rfl⟩

/-- The top row of the glyph 0 at column 62, drawn with VF as its own column register: it wraps to
the left edge, and nothing was lit. -/
theorem draw_eq_blit_wrapped :
    let s := (State.initial ⟨0, 0⟩).setRegister 15 62
    (Instruction.decode 0xDF01).opcode = 0xD ∧ Sprite.InMemory 0 1 ∧
      s.execute 0xDF01 =
        .ok { s.setRegister 15 (if (s.blit 15 0 1).erased then 1 else 0) with
          display := (s.blit 15 0 1).picture } ∧
      (s.blit 15 0 1).picture.get 1 0 = true ∧ (s.blit 15 0 1).erased = false := by
  intro s
  have hop : (Instruction.decode 0xDF01).opcode = 0xD := by decide
  have hin : Sprite.InMemory 0 1 := .inr (by decide)
  refine ⟨hop, hin, (draw_eq_blit s 0xDF01 hop hin).1, ?_⟩
  decide +kernel

end State

end Chip8
