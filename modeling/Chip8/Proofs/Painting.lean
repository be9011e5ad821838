/-
Chip8.Proofs.Painting — what is on the screen after a run.

A pixel is lit exactly if an odd number of the sprites drawn since the
last 00E0 cover it. `Execution.Covers` reads the pixels of an executed
DXYN off the state from before it, in the forward direction: the place of
a set bit. `sinceClear` is the part of a run after its last 00E0.

`step_display` is the step: an executed instruction repaints the picture,
which is blank after 00E0 and inverted where a DXYN covers it, and no
other instruction touches it. Neither do samples of the keys and timer
ticks, so the picture after a run is that of all its repaintings in order
(`play_display`). Inversions of one pixel only count up to parity
(`get_foldl_repaint`), and this is why the order of the sprites does not
matter.
-/
import Mathlib.Algebra.Group.Nat.Even
import Mathlib.Algebra.Ring.Parity
import Mathlib.Data.Finset.Dedup
import Mathlib.Data.List.DropRight
import Chip8.Proofs.Blit
import Chip8.Proofs.Interpreter
import Chip8.Proofs.WriteSets

namespace Chip8

/-! ## The pixels of a drawn sprite -/

namespace Execution

/-- The executed instruction is a DXYN, and one of the set bits of its sprite lands on the pixel.
Memory, I, VX and VY are those from before it. -/
def Covers (e : Execution) (px : Fin 64) (py : Fin 32) : Prop :=
  e.operation? = some .draw ∧
    ∃ r < e.instruction.n.val, ∃ c < 8,
      Sprite.isSet e.before.memory (e.before.index.toNat + r) c = true ∧
      Sprite.place (e.before.register e.instruction.x).toNat
        (e.before.register e.instruction.y).toNat c r = (px, py)

instance (e : Execution) (px : Fin 64) (py : Fin 32) : Decidable (e.Covers px py) :=
  inferInstanceAs (Decidable (_ ∧ ∃ r < e.instruction.n.val, ∃ c < 8, _ ∧ _))

/-- The pixels that the sprite of an executed DXYN covers. -/
def pixels (e : Execution) : Finset (Fin 64 × Fin 32) :=
  (Sprite.toggled e.before.memory e.before.index.toNat
    (e.before.register e.instruction.x).toNat (e.before.register e.instruction.y).toNat
    e.instruction.n.val).toFinset

theorem covers_iff (e : Execution) (px : Fin 64) (py : Fin 32) :
    e.Covers px py ↔ e.operation? = some .draw ∧ (px, py) ∈ e.pixels := by
  rw [Covers, pixels, List.mem_toFinset, Sprite.mem_toggled_iff]

/-- The picture of the pixels that an executed instruction covers; dark, unless it is a DXYN. -/
def mask (e : Execution) : Screen := Screen.ofFn fun px py => decide (e.Covers px py)

/-- What an executed instruction does to a picture. -/
def repaint (picture : Screen) (e : Execution) : Screen :=
  if e.operation? = some .clearScreen then Screen.blank else picture.invert e.mask

/-- An instruction that covers nothing leaves a picture as it is. -/
theorem invert_mask_of_ne {e : Execution} (h : e.operation? ≠ some .draw) (picture : Screen) :
    picture.invert e.mask = picture := by
  apply Screen.ext
  intro px py
  have hcovers : ¬ e.Covers px py := fun hcovers => h hcovers.1
  rw [Screen.get_invert, mask, Screen.get_ofFn, decide_eq_false hcovers, Bool.xor_false]

end Execution

/-! ## Steps -/

namespace State

@[simp] theorem press_display (s : State) (codes : List Int) :
    (s.press codes).display = s.display := by
  unfold press
  rfl

/-- The mask of a DXYN that may be executed covers the places of the set bits. -/
theorem mask_eq_spriteMask {s t : State} {word : UInt16}
    (hdraw : firstMatch opcodeTable word.toNat = some .draw)
    (hin : Sprite.InMemory s.index.toNat (Instruction.n ⟨word⟩).val) :
    Execution.mask ⟨s, ⟨word⟩, t⟩ =
      s.spriteMask Edge.standard (Instruction.x ⟨word⟩) (Instruction.y ⟨word⟩)
        (Instruction.n ⟨word⟩) := by
  apply Screen.ext
  intro px py
  rw [Execution.mask, Screen.get_ofFn, Bool.eq_iff_iff, decide_eq_true_iff,
    s.get_spriteMask_iff Edge.standard _ _ _ hin]
  exact and_iff_right hdraw

/-- **What one step does to the picture.** -/
theorem step_display {s t : State} {word : UInt16} (hstep : s.step = .ok (t, word)) :
    t.display = Execution.repaint s.display ⟨s, ⟨word⟩, t⟩ := by
  obtain ⟨-, -, o, ho, hpermit, heq⟩ := (step_eq_ok_iff s t word).mp hstep
  have hoperation : Execution.operation? ⟨s, ⟨word⟩, t⟩ = some o := ho
  unfold Execution.repaint
  by_cases hclear : o = .clearScreen
  · subst hclear
    rw [if_pos hoperation, heq]
    rfl
  · rw [if_neg (by simpa [hoperation] using hclear)]
    by_cases hdraw : o = .draw
    · subst hdraw
      have hin := (Access.permit_eq_ok_iff .read s.index.toNat _).mp hpermit
      rw [mask_eq_spriteMask ho hin, heq]
      rfl
    · have hother : ¬ o.Writes ⟨word⟩ s.advance .display := fun h => h.elim hclear hdraw
      rw [Execution.invert_mask_of_ne (by simpa [hoperation] using hdraw), heq]
      exact o.perform_frame ⟨word⟩ s.advance hother

end State

/-! ## Runs -/

/-- The part of a run after its last 00E0. -/
def sinceClear (run : List Execution) : List Execution :=
  run.rtakeWhile fun e => e.operation? ≠ some .clearScreen

theorem ne_clearScreen_of_mem_sinceClear {run : List Execution} {e : Execution}
    (he : e ∈ sinceClear run) : e.operation? ≠ some .clearScreen := by
  unfold sinceClear at he
  simpa using List.mem_rtakeWhile_imp he

/-- Only what was executed since the last 00E0 shows in the picture. -/
theorem foldl_repaint_sinceClear (run : List Execution) :
    run.foldl Execution.repaint Screen.blank =
      (sinceClear run).foldl Execution.repaint Screen.blank := by
  induction run using List.reverseRecOn with
  | nil => rfl
  | append_singleton run e ih =>
    unfold sinceClear at ih ⊢
    by_cases hclear : e.operation? = some .clearScreen
    · rw [List.rtakeWhile_concat_neg _ _ _ (by simpa using hclear), List.foldl_append]
      exact if_pos hclear
    · rw [List.rtakeWhile_concat_pos _ _ _ (by simpa using hclear), List.foldl_append,
        List.foldl_append, ih]

/-- **Inversions add up to their parity**: without a 00E0 in it a run inverts a pixel exactly if an
odd number of its instructions cover it. -/
theorem get_foldl_repaint (run : List Execution)
    (hclear : ∀ e ∈ run, e.operation? ≠ some .clearScreen) (picture : Screen) (px : Fin 64)
    (py : Fin 32) :
    (run.foldl Execution.repaint picture).get px py =
      (picture.get px py ^^ decide (Odd (run.countP fun e => e.Covers px py))) := by
  induction run generalizing picture with
  | nil => simp
  | cons e rest ih =>
    have hrest := fun e' he' => hclear e' (List.mem_cons_of_mem e he')
    have hrepaint : Execution.repaint picture e = picture.invert e.mask :=
      if_neg (hclear e List.mem_cons_self)
    rw [List.foldl_cons, ih hrest, hrepaint, Screen.get_invert, Execution.mask, Screen.get_ofFn,
      List.countP_cons]
    by_cases hcovers : e.Covers px py
    · by_cases hodd : Odd (rest.countP fun e => e.Covers px py)
      · simp [hcovers, hodd, Nat.odd_add_one]
      · simp [hcovers, hodd, Nat.odd_add_one]
    · simp [hcovers]

/-- The sprites that a run draws, in order, each as the pixels that it covers. -/
def sprites (run : List Execution) : List (Finset (Fin 64 × Fin 32)) :=
  (run.filter fun e => e.operation? = some .draw).map Execution.pixels

/-- The sprites tell how many instructions cover a pixel. -/
theorem countP_sprites (run : List Execution) (px : Fin 64) (py : Fin 32) :
    (sprites run).countP (fun pixels => (px, py) ∈ pixels) =
      run.countP fun e => e.Covers px py := by
  unfold sprites
  rw [List.countP_map, List.countP_filter]
  refine List.countP_congr fun e _ => ?_
  simp only [Function.comp_apply, Execution.covers_iff, Bool.and_eq_true, decide_eq_true_eq]
  exact and_comm

namespace Progress

/-- The picture after a run is that of all its repaintings. -/
theorem play_display {s : State} {beats : List Beat} {p : Progress}
    (hplay : play ⟨s, []⟩ beats = .ok p) :
    p.state.display = p.executed.foldl Execution.repaint s.display := by
  refine play_preserves
    (I := fun p => p.state.display = p.executed.foldl Execution.repaint s.display) ?_ rfl hplay
  intro p b q hp hbeat
  rcases (beat_eq_ok_iff p q b).mp hbeat with ⟨codes, after, word, -, hstep, rfl⟩ | ⟨-, rfl⟩
  · rw [executed_execute, List.foldl_append, ← hp, ← p.state.press_display codes]
    exact State.step_display hstep
  · rw [executed_tick]
    exact hp

/-- **The picture counts the sprites modulo two.** After a run from the start of a program a pixel
is lit exactly if an odd number of the DXYN executed since the last 00E0 cover it.

So the order of the sprites does not matter: two runs without a 00E0, from states with the same
picture, lead to the same picture again if they draw the same sprites in any order. -/
theorem lit_iff_odd_covered :
    (∀ (seed : Int) (program : List UInt8) (beats : List Beat) (p : Progress),
      (start seed program).play beats = .ok p →
      ∀ px py, p.state.display.get px py = true ↔
        Odd ((sinceClear p.executed).countP fun e => e.Covers px py)) ∧
    ∀ (s s' : State) (beats beats' : List Beat) (p p' : Progress),
      play ⟨s, []⟩ beats = .ok p → play ⟨s', []⟩ beats' = .ok p' → s.display = s'.display →
      (∀ e ∈ p.executed ++ p'.executed, e.operation? ≠ some .clearScreen) →
      (sprites p.executed).Perm (sprites p'.executed) →
      p.state.display = p'.state.display := by
  constructor
  · intro seed program beats p hplay px py
    have hclear : ∀ e ∈ sinceClear p.executed, e.operation? ≠ some .clearScreen := fun e he =>
      ne_clearScreen_of_mem_sinceClear he
    have hblank : (State.start seed program).display = Screen.blank := rfl
    rw [play_display hplay, hblank, foldl_repaint_sinceClear,
      get_foldl_repaint _ hclear, Screen.get_blank, Bool.false_xor, decide_eq_true_iff]
  · intro s s' beats beats' p p' hplay hplay' hdisplay hclear hperm
    apply Screen.ext
    intro px py
    have hfirst := fun e he => hclear e (List.mem_append_left p'.executed he)
    have hsecond := fun e he => hclear e (List.mem_append_right p.executed he)
    rw [play_display hplay, play_display hplay', get_foldl_repaint _ hfirst,
      get_foldl_repaint _ hsecond, hdisplay, ← countP_sprites, ← countP_sprites,
      hperm.countP_eq]

/-- The top row of the digit 0, drawn at the columns 0 and 2. -/
def overlap : List UInt8 := [0xD0, 0x11, 0x60, 0x02, 0xD0, 0x11]

/-- The same in the other order. -/
def overlapReversed : List UInt8 := [0x60, 0x02, 0xD0, 0x11, 0x60, 0x00, 0xD0, 0x11]

/-- The pixel that both rows cover is dark, one that only the second covers is lit, and the other
order leads to the same picture. -/
theorem overlap_either_order :
    ∃ p q, (start 0 overlap).play (List.replicate 3 (.cycle [])) = .ok p ∧
      (start 0 overlapReversed).play (List.replicate 4 (.cycle [])) = .ok q ∧
      p.state.display.get 2 0 = false ∧ p.state.display.get 4 0 = true ∧
      p.state.display = q.state.display := by
  have hseen : ((start 0 overlap).play (List.replicate 3 (.cycle []))).bind (fun p =>
      ((start 0 overlapReversed).play (List.replicate 4 (.cycle []))).map fun q =>
        decide ((∀ e ∈ p.executed ++ q.executed, e.operation? ≠ some .clearScreen) ∧
          (sprites p.executed).Perm (sprites q.executed) ∧
          (sinceClear p.executed).countP (fun e => e.Covers 2 0) = 2 ∧
          (sinceClear p.executed).countP (fun e => e.Covers 4 0) = 1)) = .ok true := by
    decide +kernel
  cases hp : (start 0 overlap).play (List.replicate 3 (.cycle [])) with
  | error f =>
    rw [hp] at hseen
    cases hseen
  | ok p =>
    cases hq : (start 0 overlapReversed).play (List.replicate 4 (.cycle [])) with
    | error f =>
      rw [hp, hq] at hseen
      cases hseen
    | ok q =>
      rw [hp, hq] at hseen
      obtain ⟨hclear, hperm, htwo, hone⟩ := of_decide_eq_true (Except.ok.inj hseen)
      have hpicture := lit_iff_odd_covered.2 (State.start 0 overlap) (State.start 0 overlapReversed)
        _ _ p q hp hq rfl hclear hperm
      refine ⟨p, q, rfl, rfl, ?_, ?_, hpicture⟩
      · refine Bool.eq_false_iff.mpr fun hlit => ?_
        have hodd := (lit_iff_odd_covered.1 0 _ _ p hp 2 0).mp hlit
        rw [htwo] at hodd
        exact absurd hodd (by decide)
      · refine (lit_iff_odd_covered.1 0 _ _ p hp 4 0).mpr ?_
        rw [hone]
        decide

end Progress

end Chip8
