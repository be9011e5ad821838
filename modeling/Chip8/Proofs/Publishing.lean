/-
Chip8.Proofs.Publishing — what a frame buffer holds after frames of any
shape were published to it.

A buffer takes frames of the shape of a picture and no others.
`FrameBuffer.offer` is the buffer after a frame was published, accepted or
not; `received_foldl_offer` and `latest_foldl_offer` tell what it holds
after any number of them. `FrameBuffer.publishAll` stops at the first frame
that is refused.
-/
import Chip8.Frame

namespace Chip8

/-- A frame with the shape of a picture. -/
def Frame.IsPicture (f : Frame) : Prop := f.shape = Frame.pictureShape

instance : DecidablePred Frame.IsPicture := fun f =>
  inferInstanceAs (Decidable (f.shape = Frame.pictureShape))

theorem Frame.toScreen?_of_isPicture {f : Frame} (h : f.IsPicture) :
    f.toScreen? = some (Screen.ofFn fun x y => f.lit [x.val, y.val]) := if_pos h

theorem Frame.toScreen?_of_not_isPicture {f : Frame} (h : ¬ f.IsPicture) : f.toScreen? = none :=
  if_neg h

namespace FrameBuffer

/-- The buffer after a frame was published; a frame that is refused changes nothing. -/
def offer (b : FrameBuffer) (f : Frame) : FrameBuffer :=
  match b.publish f with
  | .ok c => c
  | .error _ => b

variable (b : FrameBuffer) {f : Frame}

/-- A frame of the right shape becomes the latest picture and is counted. -/
theorem publish_of_isPicture (h : f.IsPicture) :
    ∃ picture, b.publish f = .ok ⟨picture, b.received + 1⟩ ∧
      ∀ x y, picture.get x y = f.lit [x.val, y.val] := by
  refine ⟨Screen.ofFn fun x y => f.lit [x.val, y.val], ?_, fun x y => Screen.get_ofFn _ x y⟩
  unfold publish
  rw [Frame.toScreen?_of_isPicture h]
  rfl

/-- A frame of another shape is refused, with its shape. -/
theorem publish_of_not_isPicture (h : ¬ f.IsPicture) : b.publish f = .error ⟨f.shape⟩ := by
  unfold publish
  rw [Frame.toScreen?_of_not_isPicture h]

theorem offer_of_not_isPicture (h : ¬ f.IsPicture) : b.offer f = b := by
  rw [offer, b.publish_of_not_isPicture h]

theorem offer_of_isPicture (h : f.IsPicture) :
    (b.offer f).received = b.received + 1 ∧
      ∀ x y, (b.offer f).latest.get x y = f.lit [x.val, y.val] := by
  obtain ⟨picture, hpublish, hlit⟩ := b.publish_of_isPicture h
  rw [offer, hpublish]
  exact ⟨rfl, hlit⟩

/-- Frames of other shapes change nothing, however many. -/
theorem foldl_offer_of_refused {frames : List Frame} (h : ∀ f ∈ frames, ¬ f.IsPicture) :
    frames.foldl offer b = b := by
  induction frames with
  | nil => rfl
  | cons f rest ih =>
    rw [List.foldl_cons, b.offer_of_not_isPicture (h f List.mem_cons_self)]
    exact ih fun g hg => h g (List.mem_cons_of_mem f hg)

theorem received_foldl_offer (frames : List Frame) :
    (frames.foldl offer b).received = b.received + frames.countP fun f => f.IsPicture := by
  induction frames generalizing b with
  | nil => rfl
  | cons f rest ih =>
    rw [List.foldl_cons, ih, List.countP_cons]
    by_cases h : f.IsPicture
    · rw [(b.offer_of_isPicture h).1, if_pos (decide_eq_true h)]
      omega
    · rw [b.offer_of_not_isPicture h, if_neg (by simpa using h), Nat.add_zero]

/-- The latest picture is that of the last frame that was accepted. -/
theorem latest_foldl_offer {earlier later : List Frame} (h : f.IsPicture)
    (hlater : ∀ g ∈ later, ¬ g.IsPicture) (x : Fin 64) (y : Fin 32) :
    ((earlier ++ f :: later).foldl offer b).latest.get x y = f.lit [x.val, y.val] := by
  rw [List.foldl_append, List.foldl_cons, foldl_offer_of_refused _ hlater]
  exact (offer_of_isPicture _ h).2 x y

/-! ## Publishing until a frame is refused -/

theorem publish_eq_offer (h : f.IsPicture) : b.publish f = .ok (b.offer f) := by
  obtain ⟨picture, hpublish, -⟩ := b.publish_of_isPicture h
  rw [offer, hpublish]

/-- Frames that are accepted are published, and the others wait behind them. -/
theorem publishAll_append {good : List Frame} (hgood : ∀ g ∈ good, g.IsPicture)
    (more : List Frame) :
    b.publishAll (good ++ more) = (good.foldl offer b).publishAll more := by
  induction good generalizing b with
  | nil => rfl
  | cons g rest ih =>
    rw [List.cons_append, publishAll, b.publish_eq_offer (hgood g List.mem_cons_self)]
    exact ih _ fun d hd => hgood d (List.mem_cons_of_mem g hd)

theorem publishAll_of_pictures {frames : List Frame} (h : ∀ f ∈ frames, f.IsPicture) :
    b.publishAll frames = (frames.foldl offer b, none) := by
  have happend := b.publishAll_append h []
  rw [List.append_nil] at happend
  exact happend

/-- The frames before one that is refused are published, and those after it are not. -/
theorem publishAll_of_refused {good more : List Frame} (hgood : ∀ g ∈ good, g.IsPicture)
    (hf : ¬ f.IsPicture) :
    b.publishAll (good ++ f :: more) = (good.foldl offer b, some ⟨f.shape⟩) := by
  rw [b.publishAll_append hgood, publishAll, publish_of_not_isPicture _ hf]

end FrameBuffer

end Chip8
