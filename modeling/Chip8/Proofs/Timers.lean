/-
Chip8.Proofs.Timers — the value of a timer, told from what was executed and
how often the timers were lowered.

The two timers behave alike, so all is said once for a `Timer`. A timer is
written by one operation, FX15 or FX18, and lowered by a tick unless it has
run out (`Timer.tracks`). What is left of it is therefore the value that VX
had when it was last set, less the ticks since then, and never below zero
(`Timer.foldl_move`). `timer_history` says so of every history of calls on a
machine, with the instructions and ticks that these calls make, and that
FX07 reads this value.
-/
import Chip8.Proofs.Moves

namespace Chip8

/-- A timer. -/
inductive Timer where
  | delay
  | sound
deriving DecidableEq, Repr

namespace Timer

/-- The value of a timer. -/
def read : Timer → State → UInt8
  | .delay, s => s.delayTimer
  | .sound, s => s.soundTimer

/-- The operation that sets a timer: FX15 the delay timer, FX18 that of the buzzer. -/
def setter : Timer → Operation
  | .delay => .setDelayTimer
  | .sound => .setSoundTimer

/-- A timer as a part of a state. -/
def component : Timer → Component
  | .delay => .delayTimer
  | .sound => .soundTimer

/-! ## What is left of a timer -/

variable (timer : Timer)

/-- The value that a move sets the timer to, if it does: that of VX. -/
def set? : Move → Option UInt8
  | .execute e =>
    if e.operation? = some timer.setter then some (e.before.register e.instruction.x) else none
  | .start | .tick _ => none

theorem set?_execute (e : Execution) :
    timer.set? (.execute e) =
      if e.operation? = some timer.setter then some (e.before.register e.instruction.x) else none :=
  rfl

/-- The value that the timer was set to last, zero if it was not set. -/
def setting (moves : List Move) : Nat :=
  ((moves.filterMap timer.set?).getLast?.getD 0).toNat

/-- The number of ticks after the timer was set last. -/
def ticksSince (moves : List Move) : Nat :=
  (moves.rtakeWhile fun m => (timer.set? m).isNone).countP Move.isTick

/-- What is left of the timer. -/
def remaining (moves : List Move) : Int :=
  max 0 ((timer.setting moves : Int) - (timer.ticksSince moves : Int))

theorem setting_concat_some {m : Move} {b : UInt8} (h : timer.set? m = some b)
    (moves : List Move) : timer.setting (moves ++ [m]) = b.toNat := by
  simp [setting, h]

theorem setting_concat_none {m : Move} (h : timer.set? m = none) (moves : List Move) :
    timer.setting (moves ++ [m]) = timer.setting moves := by
  simp [setting, h]

theorem ticksSince_concat_some {m : Move} {b : UInt8} (h : timer.set? m = some b)
    (moves : List Move) : timer.ticksSince (moves ++ [m]) = 0 := by
  unfold ticksSince
  rw [List.rtakeWhile_concat_neg _ _ _ (by simp [h])]
  rfl

theorem ticksSince_concat_none {m : Move} (h : timer.set? m = none) (moves : List Move) :
    timer.ticksSince (moves ++ [m]) =
      timer.ticksSince moves + if m.isTick then 1 else 0 := by
  unfold ticksSince
  rw [List.rtakeWhile_concat_pos _ _ _ (by simp [h]), List.countP_append, List.countP_singleton]

/-! ## Moves -/

/-- What a move does to the timer. -/
def move (b : UInt8) (m : Move) : UInt8 :=
  match timer.set? m with
  | some c => c
  | none => if m.isTick then State.countDown b else b

theorem move_of_some {m : Move} {c : UInt8} (h : timer.set? m = some c) (b : UInt8) :
    timer.move b m = c := by
  rw [move, h]

theorem move_of_none {m : Move} (h : timer.set? m = none) (b : UInt8) :
    timer.move b m = if m.isTick then State.countDown b else b := by
  rw [move, h]

/-- A timer that is lowered does not wrap. -/
theorem toNat_countDown (b : UInt8) : (State.countDown b).toNat = b.toNat - 1 := by
  unfold State.countDown
  by_cases h : 0 < b
  · have hone : (1 : UInt8) ≤ b := by
      rw [UInt8.le_iff_toNat_le]
      exact UInt8.lt_iff_toNat_lt.mp h
    rw [if_pos h, UInt8.toNat_sub_of_le _ _ hone]
    rfl
  · have hzero : b.toNat = 0 :=
      Nat.eq_zero_of_not_pos fun hpos => h (UInt8.lt_iff_toNat_lt.mpr hpos)
    rw [if_neg h, hzero]

/-- A tick lowers each timer by one unless it has run out, whatever the other is. -/
theorem read_tick (s : State) : timer.read s.tick = State.countDown (timer.read s) := by
  cases timer <;> rfl

theorem read_press (s : State) (codes : List Int) : timer.read (s.press codes) = timer.read s := by
  unfold State.press read
  cases timer <;> rfl

theorem read_start (seed : Int) (program : List UInt8) :
    timer.read (State.start seed program) = 0 := by
  cases timer <;> rfl

/-- **Nothing but its own operation sets a timer**, to the value that VX had before. -/
theorem read_after {e : Execution} (h : e.before.step = .ok (e.after, e.instruction.raw)) :
    timer.read e.after = (timer.set? (.execute e)).getD (timer.read e.before) := by
  obtain ⟨o, ho, hafter⟩ := Execution.exists_operation h
  rw [set?_execute, ho, hafter]
  by_cases hsets : o = timer.setter
  · subst hsets
    rw [if_pos rfl]
    cases timer <;> rfl
  · rw [if_neg fun heq => hsets (Option.some.inj heq)]
    have hframe := o.perform_frame e.instruction e.before.advance (c := timer.component)
    cases timer with
    | delay => exact hframe hsets
    | sound => exact hframe hsets

theorem tracks : Move.Tracks timer.read timer.move where
  press := timer.read_press
  execute e h := by
    rw [timer.read_after h]
    cases hset : timer.set? (.execute e) with
    | some c => rw [timer.move_of_some hset, Option.getD_some]
    | none =>
      rw [timer.move_of_none hset, Option.getD_none]
      rfl
  tick s := timer.read_tick s

/-- **What is left of a timer** that was zero at the start. -/
theorem foldl_move (moves : List Move) :
    ((moves.foldl timer.move 0).toNat : Int) = timer.remaining moves := by
  induction moves using List.reverseRecOn with
  | nil => rfl
  | append_singleton moves m ih =>
    unfold remaining at ih ⊢
    rw [List.foldl_append, List.foldl_cons, List.foldl_nil]
    cases hset : timer.set? m with
    | some b =>
      rw [timer.move_of_some hset, timer.setting_concat_some hset,
        timer.ticksSince_concat_some hset]
      simp
    | none =>
      rw [timer.move_of_none hset, timer.setting_concat_none hset,
        timer.ticksSince_concat_none hset]
      by_cases htick : m.isTick
      · rw [if_pos htick, if_pos htick, toNat_countDown]
        omega
      · rw [if_neg htick, if_neg htick]
        exact ih

end Timer

/-! ## Runs of a machine -/

namespace Rig

section

variable {ω τ : Type} [OfNat τ 0] [Sub τ] [HasRates τ] {host : Host ω τ} {A : (ω → ω) → Prop}
  {s t : Rig ω τ} {moves : List Move}

theorem Course.read_eq (hs : s.machine.state? = none) (h : s.Course host A moves t) (timer : Timer)
    {state : State} (hstate : t.machine.state? = some state) :
    ((timer.read state).toNat : Int) = timer.remaining (sinceStart moves) := by
  rw [h.tracked timer.tracks hs hstate, timer.read_start, timer.foldl_move]

/-- FX07 puts what is left of the delay timer into VX. -/
theorem Course.read_delay (hs : s.machine.state? = none) {earlier later : List Move} {e : Execution}
    (h : s.Course host A (earlier ++ .execute e :: later) t)
    (hread : e.operation? = some .readDelayTimer) :
    ((e.after.register e.instruction.x).toNat : Int) =
      Timer.delay.remaining (sinceStart earlier) := by
  obtain ⟨hstep, hbefore⟩ := h.tracked_before Timer.delay.tracks hs
  obtain ⟨o, ho, hafter⟩ := Execution.exists_operation hstep
  obtain rfl : Operation.readDelayTimer = o := Option.some.inj (hread.symm.trans ho)
  have hregister : e.after.register e.instruction.x = Timer.delay.read e.before := by
    rw [hafter]
    exact (e.before.advance.register_setRegister _ _ _).trans (if_pos rfl)
  rw [hregister, hbefore, Timer.read_start, Timer.foldl_move]

end

section

variable {ω τ : Type} [OfNat τ 0] [OfNat τ 1] [OfNat τ 4] [Add τ] [Sub τ] [Mul τ] [Div τ] [LE τ]
  [DecidableLE τ] [HasRates τ]

/-- **The history of the timers.** Every history of calls on a new machine is the course of the
moves that these calls make, and the machine counts them. From a boot on they are what the calls
ask for, in this order: one instruction for each cycle and one tick for each tick, all of them if
the machine still runs, and up to its end otherwise, unless it was run in its loop.

A timer is then what VX was at the last FX15 or FX18 since the start, less the ticks since then, and
zero if that is less or if it was never set; FX07 reads this of the delay timer. The next tick
lowers each timer by one unless it is zero, whatever the other is. -/
theorem timer_history (host : Host ω τ) {s t : Rig ω τ} {program : List UInt8} {config : Config τ}
    {threshold : Level} (hnew : s.machine = Machine.new program config threshold)
    {calls : List (Call ω)} (h : s.afterAll host calls = some t) :
    (∀ rest, calls = .boot :: rest →
      ((∀ c ∈ rest, c.isRun = false) →
        (s.movesAll host calls).map Move.kind <+: calls.filterMap Call.kind?) ∧
      (t.machine.status = .running →
        (s.movesAll host calls).map Move.kind = calls.filterMap Call.kind?)) ∧
    (s.Course host (fun f => .affect f ∈ calls) (s.movesAll host calls) t ∧
      t.machine.cycles = (executions (s.movesAll host calls)).length ∧
      t.machine.ticks = (s.movesAll host calls).countP Move.isTick) ∧
    (∀ (timer : Timer) (state : State), t.machine.state? = some state →
      ((timer.read state).toNat : Int) =
        max 0 ((timer.setting (sinceStart (s.movesAll host calls)) : Int) -
          (timer.ticksSince (sinceStart (s.movesAll host calls)) : Int))) ∧
    (∀ earlier e later, s.movesAll host calls = earlier ++ .execute e :: later →
      e.operation? = some .readDelayTimer →
        ((e.after.register e.instruction.x).toNat : Int) =
          max 0 ((Timer.delay.setting (sinceStart earlier) : Int) -
            (Timer.delay.ticksSince (sinceStart earlier) : Int))) ∧
    (t.machine.status = .running → ∀ state, t.machine.state? = some state →
      ∃ ticked, (t.tick host).1.machine.state? = some ticked ∧
        ∀ timer : Timer, (timer.read ticked).toNat = (timer.read state).toNat - 1) := by
  have hs : s.machine.state? = none := by rw [hnew]; rfl
  have hcourse := course_of_afterAll host h
  refine ⟨fun rest hcalls => ?_, ⟨hcourse, counts_of_new host hnew h⟩,
    fun timer state hstate => hcourse.read_eq hs timer hstate,
    fun earlier e later hmoves hread => ?_, fun hrunning state hstate => ?_⟩
  · subst hcalls
    exact kinds_movesAll hnew h
  · rw [hmoves] at hcourse
    exact hcourse.read_delay hs hread
  · obtain ⟨g, hlife⟩ := t.machine.life_of_running hrunning
    have hready := t.ready_of_running host hlife
    refine ⟨state.tick, ?_, fun timer => ?_⟩
    · rw [t.tick_eq_lower host hready]
      exact state?_lower host hstate
    · rw [timer.read_tick, Timer.toNat_countDown]

end

/-- A machine that sets the delay timer to five and reads it. -/
def fading : Rig Rat Rat :=
  ⟨Machine.new [0x60, 0x05, 0xF0, 0x15, 0xF1, 0x07] Config.exact .info, 0⟩

/-- With two ticks in between it reads three, and the buzzer was never set. A third tick leaves
two. -/
theorem fading_reads_three :
    ∃ (t : Rig Rat Rat) (state : State),
      fading.afterAll Host.exact [.boot, .cycle, .cycle, .tick, .tick, .cycle] = some t ∧
      t.machine.state? = some state ∧
      (fading.movesAll Host.exact [.boot, .cycle, .cycle, .tick, .tick, .cycle]).map Move.kind =
        [.start, .instruction, .instruction, .tick, .tick, .instruction] ∧
      max 0 ((Timer.delay.setting (sinceStart (fading.movesAll Host.exact
          [.boot, .cycle, .cycle, .tick, .tick, .cycle])) : Int) -
        (Timer.delay.ticksSince (sinceStart (fading.movesAll Host.exact
          [.boot, .cycle, .cycle, .tick, .tick, .cycle])) : Int)) = 3 ∧
      t.machine.ticks = 2 ∧ state.delayTimer = 3 ∧ state.soundTimer = 0 ∧ state.register 1 = 3 ∧
      ∃ ticked, (t.tick Host.exact).1.machine.state? = some ticked ∧ ticked.delayTimer = 2 := by
  have hseen : ((fading.afterAll Host.exact [.boot, .cycle, .cycle, .tick, .tick, .cycle]).bind
      fun t => t.machine.state?.map fun state =>
        (t.machine.status, t.machine.ticks, state.delayTimer, state.soundTimer, state.register 1)) =
      some (.running, 2, 3, 0, 3) := by
    decide +kernel
  obtain ⟨t, ht, hseen⟩ := Option.bind_eq_some_iff.mp hseen
  obtain ⟨state, hstate, hseen⟩ := Option.map_eq_some_iff.mp hseen
  obtain ⟨hrunning, hticks, hdelay, hsound, hregister⟩ : t.machine.status = .running ∧
      t.machine.ticks = 2 ∧ state.delayTimer = 3 ∧ state.soundTimer = 0 ∧ state.register 1 = 3 := by
    simpa using hseen
  obtain ⟨hkinds, -, hleft, -, hnext⟩ := timer_history Host.exact (s := fading) rfl ht
  obtain ⟨ticked, hticked, hlowered⟩ := hnext hrunning state hstate
  have hread : Timer.delay.read state = 3 := hdelay
  refine ⟨t, state, ht, hstate, (hkinds _ rfl).2 hrunning, ?_, hticks, hdelay, hsound, hregister,
    ticked, hticked, UInt8.toNat_inj.mp ((hlowered .delay).trans ?_)⟩
  · rw [← hleft .delay state hstate, hread]
    rfl
  · rw [hread]
    rfl

end Rig

end Chip8
