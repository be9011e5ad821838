/-
Chip8.Proofs.Rendering — an image shows its frame, pixel by pixel, at every
scale.

A colour comes as a list of integers. Three bytes are the components of one
colour (`IsColor.exists_components`), and rendering takes them for that
colour (`Color.ofInts_components`). What is left is the enlarged image of a
picture, in which the place divided by the scale is looked up
(`Image.pixel?_enlarge_ofScreen`). A scale that is no signed word of 64 bits
is refused, after everything else; below it an image may have more pixels
than any memory holds.

One pixel of every square is enough to get the picture back, as long as the
two colours differ (`Image.sample_enlarge_ofScreen`). The shape of a frame
is looked at before its scale, so a frame of another shape is refused for
its shape at any scale.
-/
import Chip8.Proofs.Enlarging
import Chip8.Proofs.Publishing

namespace Chip8

/-! ## Colours -/

namespace Color

/-- The components of a colour, red first. -/
def components (c : Color) : List Int := [c.red.toNat, c.green.toNat, c.blue.toNat]

/-- The components of a colour are bytes. -/
theorem component_toNat (b : UInt8) : component b.toNat = .ok b := by
  have hlt := b.toNat_lt
  have hbyte : (0 : Int) ≤ b.toNat ∧ (b.toNat : Int) < 256 := by omega
  have hmod : ((b.toNat : Int) % 2 ^ 8).toNat = b.toNat := by omega
  have hofInt : UInt8.ofInt b.toNat = b := by
    rw [UInt8.ofInt, hmod, UInt8.ofNat_toNat]
  rw [component, if_pos hbyte, hofInt]

/-- A colour is read back from its components. -/
theorem ofInts_components (pixels : Nat) (c : Color) : ofInts pixels c.components = .ok c := by
  simp only [ofInts, components, List.mapM_cons, List.mapM_nil, component_toNat]
  rfl

end Color

/-- Three integers from 0 to 255. -/
def IsColor (v : List Int) : Prop := v.length = 3 ∧ ∀ c ∈ v, 0 ≤ c ∧ c ≤ 255

instance : DecidablePred IsColor := fun v =>
  inferInstanceAs (Decidable (v.length = 3 ∧ ∀ c ∈ v, 0 ≤ c ∧ c ≤ 255))

/-- An integer from 0 to 255 is a byte. -/
theorem exists_byte {v : Int} (h : 0 ≤ v ∧ v ≤ 255) : ∃ b : UInt8, (b.toNat : Int) = v := by
  refine ⟨UInt8.ofNat v.toNat, ?_⟩
  rw [UInt8.toNat_ofNat_of_lt' (by show v.toNat < 256; omega)]
  omega

/-- They are the components of a colour. -/
theorem IsColor.exists_components {v : List Int} (h : IsColor v) :
    ∃ c : Color, c.components = v := by
  obtain ⟨red, green, blue, rfl⟩ := List.length_eq_three.mp h.1
  obtain ⟨r, hr⟩ := exists_byte (h.2 red (by simp))
  obtain ⟨g, hg⟩ := exists_byte (h.2 green (by simp))
  obtain ⟨b, hb⟩ := exists_byte (h.2 blue (by simp))
  refine ⟨⟨r, g, b⟩, ?_⟩
  rw [Color.components, hr, hg, hb]

/-! ## Images -/

namespace Image

variable {n : Nat} (hn : 0 < n) (s : Screen) (p : Palette)

include hn

/-- Every pixel of a picture is a square of its image. -/
theorem pixel?_enlarge_ofScreen {row column : Nat} {x : Fin 64} {y : Fin 32}
    (hx : column / n = x.val) (hy : row / n = y.val) :
    ((ofScreen s p).enlarge n).pixel? row column = some (if s.get x y then p.on else p.off) := by
  rw [pixel?_enlarge hn, pixel?_ofScreen, hx, hy, shade?_of_lt]

omit hn in
/-- The picture in an image, read off one pixel of every square of side `n`: lit is what has the
colour with these components. -/
def sample (n : Nat) (on : List Int) (i : Image) : Screen :=
  Screen.ofFn fun x y => (i.pixel? (n * y.val) (n * x.val)).map Color.components == some on

/-- **Sampling recovers the picture**, if the two colours differ. -/
theorem sample_enlarge_ofScreen (h : p.on.components ≠ p.off.components) :
    ((ofScreen s p).enlarge n).sample n p.on.components = s := by
  refine Screen.ext fun x y => ?_
  have hx : n * x.val / n = x.val := Nat.mul_div_cancel_left x.val hn
  have hy : n * y.val / n = y.val := Nat.mul_div_cancel_left y.val hn
  rw [sample, Screen.get_ofFn, pixel?_enlarge_ofScreen hn s p hx hy]
  cases s.get x y with
  | true => simp
  | false => simpa using h.symm

end Image

/-! ## Rendering -/

/-- A frame of another shape is refused before anything else is looked at. -/
theorem renderFrame_of_not_isPicture {f : Frame} (h : ¬ f.IsPicture) (scale : Int)
    (on off : List Int) : renderFrame f scale on off = .error (.shape f.shape) := by
  rw [renderFrame, Frame.toScreen?_of_not_isPicture h]

theorem renderFrame_of_small {f : Frame} (h : f.IsPicture) {scale : Int} (hscale : scale < 1)
    (on off : List Int) : renderFrame f scale on off = .error (.scale scale) := by
  simp only [renderFrame, Frame.toScreen?_of_isPicture h, Image.checkScale_of_small hscale]
  rfl

/-- From the scale one on a picture in any two colours is enlarged, if its scale is a number of
repetitions. -/
theorem renderFrame_of_isPicture {f : Frame} (h : f.IsPicture) {scale : Int} (hscale : 1 ≤ scale)
    (p : Palette) :
    renderFrame f scale p.on.components p.off.components =
      (Image.ofScreen (Screen.ofFn fun x y => f.lit [x.val, y.val]) p).magnify scale := by
  simp only [renderFrame, Frame.toScreen?_of_isPicture h, Image.checkScale_of_le hscale,
    Color.ofInts_components]
  rfl

/-- **Rendering is faithful at every scale** that is a number of repetitions, which are counted in
signed words of 64 bits. A frame in the shape of a picture becomes an image whose pixel in a row and
a column has the one colour or the other, as the pixel of the frame at these divided by the scale is
lit or dark; if the colours differ, one pixel of every square gives the frame back. At a greater
scale there is no image.

A frame of another shape is refused for its shape, whatever the scale, and a scale below one is
refused as well. -/
theorem render_faithful (f : Frame) (scale : Int) (on off : List Int) :
    (f.IsPicture → 1 ≤ scale → scale < 9223372036854775808 → IsColor on → IsColor off →
      ∃ image, renderFrame f scale on off = .ok image ∧
        image.Sized (32 * scale.toNat) (64 * scale.toNat) ∧
        (∀ row column, row < 32 * scale.toNat → column < 64 * scale.toNat →
          (image.pixel? row column).map Color.components =
            some (if f.lit [column / scale.toNat, row / scale.toNat] then on else off)) ∧
        (on ≠ off → ∀ x y, (image.sample scale.toNat on).get x y = f.lit [x.val, y.val])) ∧
    (f.IsPicture → 9223372036854775808 ≤ scale → IsColor on → IsColor off →
      renderFrame f scale on off = .error (.repeats scale)) ∧
    (¬ f.IsPicture → renderFrame f scale on off = .error (.shape f.shape)) ∧
    (f.IsPicture → scale < 1 → renderFrame f scale on off = .error (.scale scale)) := by
  refine ⟨fun hpicture hscale hmax hon hoff => ?_, fun hpicture hmax hon hoff => ?_,
    fun hshape => ?_, fun hpicture hsmall => ?_⟩
  · obtain ⟨lit, rfl⟩ := hon.exists_components
    obtain ⟨dark, rfl⟩ := hoff.exists_components
    have hpositive : 0 < scale.toNat := by omega
    have hrender := (renderFrame_of_isPicture hpicture hscale ⟨lit, dark⟩).trans
      (Image.magnify_of_lt _ hscale hmax)
    refine ⟨_, hrender, Image.sized_enlarge (Image.sized_ofScreen _ _) _,
      fun row column hrow hcolumn => ?_, fun hne x y => ?_⟩
    · obtain ⟨x, hx⟩ : ∃ x : Fin 64, column / scale.toNat = x.val :=
        ⟨⟨_, Nat.div_lt_of_lt_mul (Nat.mul_comm 64 _ ▸ hcolumn)⟩, rfl⟩
      obtain ⟨y, hy⟩ : ∃ y : Fin 32, row / scale.toNat = y.val :=
        ⟨⟨_, Nat.div_lt_of_lt_mul (Nat.mul_comm 32 _ ▸ hrow)⟩, rfl⟩
      rw [Image.pixel?_enlarge_ofScreen hpositive _ _ hx hy, hx, hy, Screen.get_ofFn,
        Option.map_some]
      split <;> rfl
    · rw [Image.sample_enlarge_ofScreen hpositive _ ⟨lit, dark⟩ hne, Screen.get_ofFn]
  · obtain ⟨lit, rfl⟩ := hon.exists_components
    obtain ⟨dark, rfl⟩ := hoff.exists_components
    have hscale : 1 ≤ scale := by omega
    exact (renderFrame_of_isPicture hpicture hscale ⟨lit, dark⟩).trans (Image.magnify_of_le _ hmax)
  · exact renderFrame_of_not_isPicture hshape scale on off
  · exact renderFrame_of_small hpicture hsmall on off

/-- The pixel in column 3 and row 1 is a square of side 2, and the exchanged place stays dark. At
scale 0 the picture is refused for its scale, a frame of 32 columns and 64 rows for its shape. -/
theorem amber_at_scale_two :
    ∃ image,
      renderFrame (Frame.ofScreen (Screen.ofLit [(3, 1)])) 2 [255, 176, 0] [0, 0, 64] =
        .ok image ∧
      (image.pixel? 3 7).map Color.components = some [255, 176, 0] ∧
      (image.pixel? 7 3).map Color.components = some [0, 0, 64] ∧
      image.sample 2 [255, 176, 0] = Screen.ofLit [(3, 1)] ∧
      renderFrame (Frame.ofScreen (Screen.ofLit [(3, 1)])) 9223372036854775808
          [255, 176, 0] [0, 0, 64] = .error (.repeats 9223372036854775808) ∧
      renderFrame ⟨[32, 64], fun _ => true⟩ 0 [255, 176, 0] [0, 0, 64] =
        .error (.shape [32, 64]) ∧
      renderFrame (Frame.ofScreen (Screen.ofLit [(3, 1)])) 0 [255, 176, 0] [0, 0, 64] =
        .error (.scale 0) := by
  obtain ⟨image, himage, -, hpixel, hsample⟩ :=
    (render_faithful (Frame.ofScreen (Screen.ofLit [(3, 1)])) 2 [255, 176, 0] [0, 0, 64]).1 rfl
      (by decide) (by decide) (by decide) (by decide)
  refine ⟨image, himage, ?_, ?_, ?_,
    (render_faithful (Frame.ofScreen (Screen.ofLit [(3, 1)])) _ _ _).2.1 rfl (by decide) (by decide)
      (by decide),
    (render_faithful ⟨[32, 64], fun _ => true⟩ 0 _ _).2.2.1 (by decide),
    (render_faithful (Frame.ofScreen (Screen.ofLit [(3, 1)])) 0 _ _).2.2.2 rfl (by decide)⟩
  · rw [hpixel 3 7 (by decide) (by decide)]
    decide +kernel
  · rw [hpixel 7 3 (by decide) (by decide)]
    decide +kernel
  · refine Screen.ext fun x y => (hsample (by decide) x y).trans ?_
    exact dif_pos ⟨x.isLt, y.isLt⟩

/-- **Not every scale has an image**: the first that no signed word of 64 bits holds is refused for
a blank picture in green and black. -/
theorem unrepeatable_scale :
    (Frame.ofScreen Screen.blank).IsPicture ∧ (1 : Int) ≤ 9223372036854775808 ∧
      IsColor [0, 255, 0] ∧ IsColor [0, 0, 0] ∧
      ¬ ∃ image, renderFrame (Frame.ofScreen Screen.blank) 9223372036854775808 [0, 255, 0]
        [0, 0, 0] = .ok image := by
  have hpicture : (Frame.ofScreen Screen.blank).IsPicture := rfl
  have hscale : (1 : Int) ≤ 9223372036854775808 := by decide
  have hrender : renderFrame (Frame.ofScreen Screen.blank) 9223372036854775808 [0, 255, 0]
      [0, 0, 0] = .error (.repeats 9223372036854775808) :=
    (renderFrame_of_isPicture hpicture hscale ⟨⟨0, 255, 0⟩, ⟨0, 0, 0⟩⟩).trans
      (Image.magnify_of_le _ le_rfl)
  refine ⟨hpicture, hscale, by decide, by decide, ?_⟩
  rintro ⟨image, himage⟩
  rw [hrender] at himage
  cases himage

end Chip8
