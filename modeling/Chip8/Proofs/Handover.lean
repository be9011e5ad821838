/-
Chip8.Proofs.Handover — the pictures that a machine hands to an adapter
without a window.

A machine publishes in its ticks only. Of its moves the ticks alone reach
the frame buffer (`frames_eq`), so the buffer has counted them all and has
the picture of the last one (`frame_handover`), as long as nobody else
publishes to it: the observer, and whoever changes the world between two
calls.
-/
import Chip8.Machine.Headless
import Chip8.Proofs.Moves
import Chip8.Proofs.Publishing
import Chip8.Proofs.Stopping

namespace Chip8

/-! ## Moves of a machine -/

namespace FrameBuffer

variable (b : FrameBuffer)

/-- What a move of a machine does to its frame buffer. -/
def move (b : FrameBuffer) : Move → FrameBuffer
  | .tick before => b.receive before.display
  | .start | .execute _ => b

theorem received_foldl_move (moves : List Move) :
    (moves.foldl move b).received = b.received + moves.countP Move.isTick := by
  induction moves generalizing b with
  | nil => rfl
  | cons m rest ih =>
    rw [List.foldl_cons, ih]
    cases m with
    | start | execute e => rfl
    | tick before =>
      rw [List.countP_cons_of_pos rfl]
      show b.received + 1 + _ = _
      omega

/-- Between two ticks nothing reaches the buffer. -/
theorem foldl_move_of_no_tick {moves : List Move} (h : moves.countP Move.isTick = 0) :
    moves.foldl move b = b := by
  induction moves with
  | nil => rfl
  | cons m rest ih =>
    cases m with
    | start | execute e => exact ih h
    | tick before =>
      rw [List.countP_cons_of_pos rfl] at h
      cases h

end FrameBuffer

/-! ## Headless machines -/

/-- A change of the world that does not publish. -/
def Headless.Spares {κ : Type} (f : Headless × κ → Headless × κ) : Prop :=
  ∀ w, (f w).1.frames = w.1.frames

/-- An observer that does not publish. -/
def Observer.Spares {κ τ : Type} (o : Observer (Headless × κ) τ) : Prop :=
  ∀ m i w f, .affect f ∈ (o m i w).1 → Headless.Spares f

namespace Rig

section

variable {κ τ : Type} [OfNat τ 0] [Sub τ] [HasRates τ] {clock : κ → τ × κ} {stamp : κ → τ}
  {sleep : τ → κ → κ × Except Failure Bool} {observer : Observer (Headless × κ) τ}
  {A : (Headless × κ → Headless × κ) → Prop} {s t : Rig (Headless × κ) τ} {moves : List Move}

omit [HasRates τ] in
theorem frames_halt (s : Rig (Headless × κ) τ) (error : Option Failure) :
    (s.halt (.headless clock stamp sleep observer) error).world.1 = s.world.1 := by
  cases hlife : s.machine.life with
  | booting =>
    obtain ⟨journal, hhalt⟩ := s.halt_of_booting (.headless clock stamp sleep observer) error hlife
    rw [hhalt]
  | running g =>
    obtain ⟨journal, hhalt⟩ := s.halt_of_running (.headless clock stamp sleep observer) error hlife
    rw [hhalt]
    rfl
  | halted earlier => rw [s.halt_of_halted _ error hlife]

omit [HasRates τ] in
/-- Nothing but a move publishes. -/
theorem Quiet.frames_eq (hobserver : observer.Spares) (hA : ∀ f, A f → Headless.Spares f)
    (h : s.Quiet (.headless clock stamp sleep observer) A t) :
    t.world.1.frames = s.world.1.frames := by
  cases h with
  | clock | sleep | stop | sample => rfl
  | halt error => rw [frames_halt]
  | affect hf => exact hA _ hf s.world
  | notify i =>
    refine s.notify_preserves _ (P := fun u => u.world.1.frames = s.world.1.frames) i rfl ?_
    intro u a ha hu
    cases a with
    | affect f => exact (hobserver _ _ _ f ha u.world).trans hu
    | stop => exact hu
    | halt error =>
      rw [← hu]
      exact congrArg Headless.frames (u.frames_halt error)
    | trace =>
      unfold act
      cases u.machine.lastStep? with
      | none => exact hu
      | some report =>
        obtain ⟨journal, hrecord⟩ := u.record_eq (.headless clock stamp sleep observer) report
        exact (congrArg (fun v => v.world.1.frames) hrecord).trans hu

omit [OfNat τ 0] [Sub τ] in
theorem Moves.frames_eq {m : Move} (h : s.Moves (.headless clock stamp sleep observer) m t) :
    t.world.1.frames = s.world.1.frames.move m := by
  cases h with
  | start hlive hr =>
    obtain ⟨journal, hboot⟩ := s.boot_of_accepted (.headless clock stamp sleep observer) hlive hr
    rw [hboot]
    rfl
  | execute => rfl
  | tick hstate =>
    rw [s.lower_eq _ hstate]
    rfl

/-- **The ticks alone reach the buffer.** -/
theorem Course.frames_eq (hobserver : observer.Spares) (hA : ∀ f, A f → Headless.Spares f)
    (h : s.Course (.headless clock stamp sleep observer) A moves t) :
    t.world.1.frames = moves.foldl FrameBuffer.move s.world.1.frames :=
  h.fold (fun _ _ hquiet => hquiet.frames_eq hobserver hA) fun _ _ _ hmove => hmove.frames_eq

/-- What the adapter of a machine has received after a course from `s` to `t`. -/
structure HandedOver {κ τ : Type} [OfNat τ 0] [Sub τ] [HasRates τ] (host : Host (Headless × κ) τ)
    (A : (Headless × κ → Headless × κ) → Prop) (s : Rig (Headless × κ) τ) (moves : List Move)
    (t : Rig (Headless × κ) τ) : Prop where
  received : t.world.1.frames.received = t.machine.ticks
  ticks : t.machine.ticks = moves.countP Move.isTick
  /-- Nothing is shown before the first tick. -/
  first : moves.countP Move.isTick = 0 → t.world.1.frames.latest = Screen.blank
  /-- The latest picture is that of the machine at its last tick. -/
  last : ∀ earlier before later, moves = earlier ++ .tick before :: later →
    later.countP Move.isTick = 0 →
    t.world.1.frames.latest = before.display ∧
      ∃ u, s.Course host A earlier u ∧ u.machine.state? = some before

theorem Course.handedOver (hobserver : observer.Spares) (hA : ∀ f, A f → Headless.Spares f)
    (hticks : s.machine.ticks = 0) (hframes : s.world.1.frames = FrameBuffer.empty)
    (h : s.Course (.headless clock stamp sleep observer) A moves t) :
    s.HandedOver (.headless clock stamp sleep observer) A moves t := by
  have hreached := h.frames_eq hobserver hA
  have hcounted : t.machine.ticks = moves.countP Move.isTick := by
    rw [h.counts.2, hticks, Nat.zero_add]
  rw [hframes] at hreached
  refine ⟨?_, hcounted, fun hnone => ?_, fun earlier before later heq hnone => ?_⟩
  · rw [hreached, FrameBuffer.received_foldl_move, hcounted]
    exact Nat.zero_add _
  · rw [hreached, FrameBuffer.foldl_move_of_no_tick _ hnone]
    rfl
  · subst heq
    obtain ⟨u, v, hu, hmove, -⟩ := h.split
    refine ⟨?_, u, hu, ?_⟩
    · -- What the buffer held before the tick does not matter.
      rw [hreached, List.foldl_append, List.foldl_cons, FrameBuffer.foldl_move_of_no_tick _ hnone]
      rfl
    · cases hmove with
      | tick hstate => exact hstate

end

section

variable {κ τ : Type} [OfNat τ 0] [OfNat τ 1] [OfNat τ 4] [Add τ] [Sub τ] [Mul τ] [Div τ] [LE τ]
  [DecidableLE τ] [HasRates τ]

/-- **The hand-over of pictures.** After every history of calls on a new headless machine its
adapter has received as many pictures as the machine has ticked, and shows that of the last tick,
whatever was executed or failed since; neither the observer nor a change of the keys publishes.

A buffer to which any frames are published counts those of the right shape and shows the last of
them. A frame of another shape is refused and leaves the buffer as it was. -/
theorem frame_handover (clock : κ → τ × κ) (stamp : κ → τ)
    (sleep : τ → κ → κ × Except Failure Bool) {observer : Observer (Headless × κ) τ}
    (hobserver : observer.Spares) {s : Rig (Headless × κ) τ} {program : List UInt8}
    {config : Config τ} {threshold : Level} {keys : List Int} {rest : κ}
    (hnew : s = ⟨Machine.new program config threshold, (Headless.new keys, rest)⟩) :
    (∀ calls t, (∀ f, .affect f ∈ calls → Headless.Spares f) →
      s.afterAll (.headless clock stamp sleep observer) calls = some t →
      t.world.1.frames.received = t.machine.ticks ∧
        ∃ moves, s.Course (.headless clock stamp sleep observer) (fun f => .affect f ∈ calls)
          moves t) ∧
    (∀ A moves t, (∀ f, A f → Headless.Spares f) →
      s.Course (.headless clock stamp sleep observer) A moves t →
      s.HandedOver (.headless clock stamp sleep observer) A moves t) ∧
    (∀ (h : Headless) (picture : Screen),
      h.draw (Frame.ofScreen picture) = .ok (h.receive picture)) ∧
    ∀ b : FrameBuffer,
      (∀ frames : List Frame,
        (frames.foldl FrameBuffer.offer b).received =
          b.received + frames.countP fun f => f.shape = [64, 32]) ∧
      (∀ earlier f later, f.shape = [64, 32] → (∀ g ∈ later, g.shape ≠ [64, 32]) →
        ∀ x y, ((earlier ++ f :: later).foldl FrameBuffer.offer b).latest.get x y =
          f.lit [x.val, y.val]) ∧
      ∀ f : Frame, f.shape ≠ [64, 32] → b.publish f = .error ⟨f.shape⟩ ∧ b.offer f = b := by
  have hcourse : ∀ A moves t, (∀ f, A f → Headless.Spares f) →
      s.Course (.headless clock stamp sleep observer) A moves t →
      s.HandedOver (.headless clock stamp sleep observer) A moves t := by
    subst hnew
    exact fun A moves t hA h => h.handedOver hobserver hA rfl rfl
  refine ⟨fun calls t hcalls h => ?_, hcourse, fun h picture => ?_, fun b => ⟨fun frames => ?_,
    fun earlier f later hf hlater x y => ?_, fun f hf => ?_⟩⟩
  · have hmoves := course_of_afterAll _ h
    exact ⟨(hcourse _ _ t hcalls hmoves).received, _, hmoves⟩
  · unfold Headless.draw FrameBuffer.publish
    rw [Frame.toScreen?_ofScreen]
    rfl
  · exact b.received_foldl_offer frames
  · exact b.latest_foldl_offer hf hlater x y
  · exact ⟨b.publish_of_not_isPicture hf, b.offer_of_not_isPicture hf⟩

end

/-- A headless machine, beside a time that only sleeping passes, that draws the top row of the digit
0 and clears the picture again. -/
def sketching : Rig (Headless × Rat) Rat :=
  ⟨Machine.new [0xD0, 0x01, 0x00, 0xE0] Config.exact .info, (Headless.new [], 0)⟩

/-- The host of that machine. -/
def sketchingHost : Host (Headless × Rat) Rat :=
  .headless (fun now => (now, now)) id (fun pause now => (now + pause, .ok false)) Observer.silent

/-- With a tick in between the adapter still shows the row, and it refuses a picture by rows. -/
theorem sketching_keeps_row :
    ∃ t, sketching.afterAll sketchingHost [.cycle, .tick, .cycle] = some t ∧
      t.world.1.frames.received = t.machine.ticks ∧ t.machine.ticks = 1 ∧
      t.world.1.frames.latest.get 0 0 = true ∧
      t.machine.picture?.map (fun picture => picture.get 0 0) = some false ∧
      ∀ lit, t.world.1.frames.publish ⟨[32, 64], lit⟩ = .error ⟨[32, 64]⟩ := by
  have hseen : (sketching.afterAll sketchingHost [.cycle, .tick, .cycle]).map (fun t =>
      (t.machine.ticks, t.world.1.frames.latest.get 0 0,
        t.machine.picture?.map fun picture => picture.get 0 0)) =
      some (1, true, some false) := by
    decide +kernel
  obtain ⟨t, ht, hseen⟩ := Option.map_eq_some_iff.mp hseen
  obtain ⟨hticks, hlatest, hpicture⟩ : t.machine.ticks = 1 ∧
      t.world.1.frames.latest.get 0 0 = true ∧
      t.machine.picture?.map (fun picture => picture.get 0 0) = some false := by
    simpa using hseen
  have hsilent : (Observer.silent : Observer (Headless × Rat) Rat).Spares := fun _ _ _ _ h =>
    absurd h List.not_mem_nil
  have hlaw := frame_handover (fun now : Rat => (now, now)) id
    (fun pause now => (now + pause, .ok false)) hsilent (s := sketching) rfl
  obtain ⟨hreceived, -⟩ := hlaw.1 _ t (fun f hf => by simp at hf) ht
  have hshape : ([32, 64] : List Nat) ≠ [64, 32] := by decide
  exact ⟨t, ht, hreceived, hticks, hlatest, hpicture, fun lit =>
    ((hlaw.2.2.2 t.world.1.frames).2.2 ⟨[32, 64], lit⟩ hshape).1⟩

end Rig

end Chip8
