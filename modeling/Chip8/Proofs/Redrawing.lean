/-
Chip8.Proofs.Redrawing — a sprite that is drawn twice is gone again.

DXYN inverts the pixels that its sprite covers, so the second of two draws
takes the first one back, provided that both cover the same pixels. They
do: nothing that decides about the pixels is written in between, neither
memory nor I nor, with X and Y below F, the registers VX and VY
(`spriteMask_setFlag`). What is left of both is the VF of the second
(`drawSprite_twice`).

The two flags look at opposite pictures. The first draw finds the picture
as it was, the second one finds it inverted under the sprite
(`overlaps_invert_iff`), so together they tell whether the sprite covers
anything at all.
-/
import Chip8.Proofs.Blit

namespace Chip8

/-! ## Inverted pictures -/

namespace Screen

/-- A second inversion takes the first one back. -/
@[simp] theorem invert_invert (s mask : Screen) : (s.invert mask).invert mask = s := by
  apply ext
  intro x y
  rw [get_invert, get_invert, Bool.xor_assoc, Bool.xor_self, Bool.xor_false]

/-- After an inversion a mask covers a lit pixel if it covered a dark one before. -/
theorem overlaps_invert_iff (s mask : Screen) :
    (s.invert mask).overlaps mask = true ↔ ∃ x y, s.get x y = false ∧ mask.get x y = true := by
  rw [overlaps_iff]
  refine exists_congr fun x => exists_congr fun y => and_congr_left fun hmask => ?_
  rw [get_invert, hmask, Bool.xor_true, Bool.not_eq_true']

end Screen

/-! ## The same sprite again -/

namespace State

variable (edge : Edge) (s : State) {x y : Fin 16} (n : Fin 16)

/-- The pixels of a sprite depend neither on VF nor on the picture, if X and Y are below F. -/
theorem spriteMask_setFlag (hx : x ≠ 15) (hy : y ≠ 15) (flag : UInt8) (picture : Screen) :
    spriteMask edge { s.setRegister 15 flag with display := picture } x y n =
      s.spriteMask edge x y n := by
  have hregister : ∀ k : Fin 16, k ≠ 15 →
      register { s.setRegister 15 flag with display := picture } k = s.register k := by
    intro k hk
    exact (s.register_setRegister 15 k flag).trans (if_neg hk.symm)
  rw [spriteMask, hregister x hx, hregister y hy]
  rfl

/-- What is drawn first is lost, if what is drawn after it is the old picture. -/
theorem setFlag_setFlag (a b : UInt8) (picture : Screen) :
    { setRegister { s.setRegister 15 a with display := picture } 15 b with display := s.display } =
      s.setRegister 15 b := by
  simp [setRegister]

/-- **A sprite drawn twice** leaves nothing behind but the flag of the second draw. -/
theorem drawSprite_twice (hx : x ≠ 15) (hy : y ≠ 15) :
    (s.drawSprite edge x y n).drawSprite edge x y n =
      s.setRegister 15
        (if (s.display.invert (s.spriteMask edge x y n)).overlaps (s.spriteMask edge x y n) then 1
          else 0) := by
  rw [s.drawSprite_eq, drawSprite_eq, s.spriteMask_setFlag edge n hx hy, Screen.invert_invert]
  exact s.setFlag_setFlag _ _ _

/-! ## Flags -/

variable (i : Instruction)

/-- A set bit of the sprite at I lands on the pixel when the word draws it. -/
def SpriteCovers (px : Fin 64) (py : Fin 32) : Prop :=
  ∃ r < i.n.val, ∃ c < 8, Sprite.isSet s.memory (s.index.toNat + r) c = true ∧
    Sprite.place (s.register i.x).toNat (s.register i.y).toNat c r = (px, py)

/-- The sprite covers a lit pixel, or a dark one. -/
def SpriteMeets (lit : Bool) : Prop :=
  ∃ px py, s.SpriteCovers i px py ∧ s.display.get px py = lit

instance (px : Fin 64) (py : Fin 32) : Decidable (s.SpriteCovers i px py) :=
  inferInstanceAs (Decidable (∃ r < i.n.val, ∃ c < 8, _ ∧ _))

instance (lit : Bool) : Decidable (s.SpriteMeets i lit) :=
  inferInstanceAs (Decidable (∃ px py, s.SpriteCovers i px py ∧ s.display.get px py = lit))

section

variable {s i} (hin : Sprite.InMemory s.index.toNat i.n.val)

include hin

theorem get_spriteMask_iff_covers (px : Fin 64) (py : Fin 32) :
    (s.spriteMask edge i.x i.y i.n).get px py = true ↔ s.SpriteCovers i px py :=
  s.get_spriteMask_iff edge i.x i.y i.n hin px py

theorem overlaps_iff_meets :
    s.display.overlaps (s.spriteMask edge i.x i.y i.n) = true ↔ s.SpriteMeets i true := by
  rw [Screen.overlaps_iff]
  refine exists_congr fun px => exists_congr fun py => ?_
  rw [get_spriteMask_iff_covers edge hin, and_comm]

theorem overlaps_invert_iff_meets :
    (s.display.invert (s.spriteMask edge i.x i.y i.n)).overlaps (s.spriteMask edge i.x i.y i.n) =
      true ↔ s.SpriteMeets i false := by
  rw [Screen.overlaps_invert_iff]
  refine exists_congr fun px => exists_congr fun py => ?_
  rw [get_spriteMask_iff_covers edge hin, and_comm]

omit hin in
/-- A sprite that meets neither a lit pixel nor a dark one covers none. -/
theorem not_meets_iff :
    ¬ s.SpriteMeets i true ∧ ¬ s.SpriteMeets i false ↔ ∀ px py, ¬ s.SpriteCovers i px py := by
  constructor
  · rintro ⟨hlit, hdark⟩ px py hcovers
    cases hpixel : s.display.get px py with
    | true => exact hlit ⟨px, py, hcovers, hpixel⟩
    | false => exact hdark ⟨px, py, hcovers, hpixel⟩
  · intro hnone
    exact ⟨fun ⟨px, py, h, _⟩ => hnone px py h, fun ⟨px, py, h, _⟩ => hnone px py h⟩

end

/-! ## The law -/

/-- A DXYN whose sprite lies in memory draws it. -/
theorem execute_draw {s : State} {word : Int} {i : Instruction} (hi : Instruction.decode word = i)
    (hdraw : i.opcode = 0xD) (hin : Sprite.InMemory s.index.toNat i.n.val) :
    s.execute word = .ok (s.drawSprite Edge.standard i.x i.y i.n) := by
  subst hi
  refine (executeWith_eq_ok_iff Edge.standard s _ word).mpr ⟨.draw, ?_, ?_, rfl⟩
  · exact (firstMatch_decode word).symm.trans (firstMatch_draw hdraw)
  · exact (Access.permit_eq_ok_iff ..).mpr hin

/-- **Drawing twice restores the picture.** A DXYN with X and Y below F and its sprite in memory can
be carried out twice. The first execution changes VF and the picture at most, and after the second
one at most VF differs from what it was at first. The first VF tells whether the sprite covers a
pixel that was lit at first, the second one whether it covers one that was dark, so both are 0
exactly if it covers none. -/
theorem draw_twice_restores {s : State} {word : Int} {i : Instruction}
    (hi : Instruction.decode word = i) (hdraw : i.opcode = 0xD) (hx : i.x ≠ 15) (hy : i.y ≠ 15)
    (hin : Sprite.InMemory s.index.toNat i.n.val) :
    ∃ t u, s.execute word = .ok t ∧ t.execute word = .ok u ∧
      t = { s.setRegister 15 (t.register 15) with display := t.display } ∧
      u.display = s.display ∧ u = s.setRegister 15 (u.register 15) ∧
      t.register 15 = (if s.SpriteMeets i true then 1 else 0) ∧
      u.register 15 = (if s.SpriteMeets i false then 1 else 0) ∧
      (t.register 15 = 0 ∧ u.register 15 = 0 ↔ ∀ px py, ¬ s.SpriteCovers i px py) := by
  obtain ⟨first, hfirst⟩ : ∃ flag : UInt8, flag = if s.SpriteMeets i true then 1 else 0 := ⟨_, rfl⟩
  obtain ⟨second, hsecond⟩ : ∃ flag : UInt8, flag = if s.SpriteMeets i false then 1 else 0 :=
    ⟨_, rfl⟩
  obtain ⟨picture, hpicture⟩ : ∃ picture,
      picture = s.display.invert (s.spriteMask Edge.standard i.x i.y i.n) := ⟨_, rfl⟩
  have hone : s.drawSprite Edge.standard i.x i.y i.n =
      { s.setRegister 15 first with display := picture } := by
    rw [drawSprite_eq, ← hpicture, hfirst]
    simp only [overlaps_iff_meets Edge.standard hin]
  have htwo : drawSprite Edge.standard { s.setRegister 15 first with display := picture }
      i.x i.y i.n = s.setRegister 15 second := by
    rw [← hone, s.drawSprite_twice Edge.standard i.n hx hy, hsecond]
    simp only [overlaps_invert_iff_meets Edge.standard hin]
  have hflag : ∀ flag : UInt8, (s.setRegister 15 flag).register 15 = flag := fun flag =>
    (s.register_setRegister 15 15 flag).trans (if_pos rfl)
  have hexecute : s.execute word = .ok { s.setRegister 15 first with display := picture } := by
    rw [execute_draw hi hdraw hin, hone]
  have hagain : execute { s.setRegister 15 first with display := picture } word =
      .ok (s.setRegister 15 second) := by
    rw [execute_draw hi hdraw (s := { s.setRegister 15 first with display := picture }) hin, htwo]
  have hread : register { s.setRegister 15 first with display := picture } 15 = first :=
    hflag first
  refine ⟨{ s.setRegister 15 first with display := picture }, s.setRegister 15 second, hexecute,
    hagain, ?_⟩
  rw [hread, hflag second]
  refine ⟨rfl, rfl, rfl, hfirst, hsecond, ?_⟩
  rw [← not_meets_iff, hfirst, hsecond]
  simp

/-- The top row of the digit 0 at column 62 wraps to the left edge, where the pixel in column 1 is
lit. It is dark after the first draw and lit after the second, and either draw has put out some
pixel. -/
theorem draw_twice_restores_wrapped :
    let s := { (initial ⟨0, 0⟩).setRegister 0 62 with display := Screen.ofLit [(1, 0)] }
    Instruction.opcode ⟨0xD011⟩ = 0xD ∧ Sprite.InMemory s.index.toNat 1 ∧
      ∃ t u, s.execute 0xD011 = .ok t ∧ t.execute 0xD011 = .ok u ∧
        u.display = s.display ∧ u = s.setRegister 15 1 ∧
        t.register 15 = 1 ∧ u.register 15 = 1 := by
  intro s
  have hin : Sprite.InMemory s.index.toNat 1 := .inr (by decide)
  obtain ⟨t, u, hfirst, hsecond, -, hdisplay, hrest, hlit, hdark, -⟩ :=
    @draw_twice_restores s 0xD011 ⟨0xD011⟩ rfl (by decide) (by decide) (by decide) hin
  have hmeets : s.SpriteMeets ⟨0xD011⟩ true ∧ s.SpriteMeets ⟨0xD011⟩ false := by decide +kernel
  rw [if_pos hmeets.1] at hlit
  rw [if_pos hmeets.2] at hdark
  rw [hdark] at hrest
  exact ⟨by decide, hin, t, u, hfirst, hsecond, hdisplay, hrest, hlit, hdark⟩

end State

end Chip8
