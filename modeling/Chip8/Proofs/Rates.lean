/-
Chip8.Proofs.Rates — both activities keep their rates exactly while the
loop polls often enough.

Times are rational here, so nothing is rounded. An activity that has
counted from `start` is on time (`Pace.OnTime`) if its last deadline lies
as many periods after `start` as it has fired, and less than one period
back. A look at the clock at most one period after the last one keeps
this (`OnTime.poll`): the activity is at most one period late, so it
fires once and never starts again from the present. The number of times
that an activity on time has fired is then the number of whole periods
that have passed (`OnTime.fired`).

`rates_exact` is this for the loop of a machine, whose iterations poll
both activities at the same times.
-/
import Chip8.Proofs.Polling
import Chip8.Proofs.Stopping
import Mathlib.Data.Rat.Floor
import Mathlib.Tactic.Linarith
import Mathlib.Tactic.NormNum
import Mathlib.Tactic.Ring

namespace Chip8

/-! ## An activity on time -/

namespace Pace

/-- At the time `now` the last deadline of an activity is less than a period old, and it lies as
many periods after `start` as the activity has fired since its count was `before`. -/
structure OnTime (period start : Rat) (before : Nat) (now : Rat) (activity : Rat × Nat) :
    Prop where
  deadline : activity.1 = start + (activity.2 - before) * period
  reached : activity.1 ≤ now
  recent : now < activity.1 + period

variable {period start : Rat} {before : Nat} {now : Rat} {activity : Rat × Nat}

theorem onTime_start (hperiod : 0 < period) : OnTime period start before start (start, before) where
  deadline := by ring
  reached := le_rfl
  recent := by linarith

/-- A look at the clock that comes at most one period after the last one keeps an activity on
time. -/
theorem OnTime.poll (h : OnTime period start before now activity) {later : Rat}
    (hle : now ≤ later) (hgap : later - now ≤ period) :
    OnTime period start before later (poll period later activity) := by
  have hreached := h.reached
  have hrecent := h.recent
  unfold Pace.poll
  by_cases hdue : isDue activity.1 period later
  · have hperiod : period ≤ later - activity.1 := of_decide_eq_true hdue
    -- Less than two periods have passed since the deadline, so it moves on by one.
    have hnext : next activity.1 period later = activity.1 + period := by
      unfold next
      rw [if_neg (by linarith)]
    rw [if_pos hdue, hnext]
    refine ⟨?_, by linarith, by linarith⟩
    have hdeadline := h.deadline
    push_cast
    linarith
  · have hperiod : ¬ period ≤ later - activity.1 := fun h => hdue (decide_eq_true h)
    rw [if_neg hdue]
    exact ⟨h.deadline, by linarith, by linarith⟩

/-- **An activity stays on time** if it is polled at least once a period. -/
theorem OnTime.polls (h : OnTime period start before now activity) {polls : List Rat}
    (hdense : (now :: polls).IsChain fun a b => a ≤ b ∧ b - a ≤ period) :
    OnTime period start before (polls.getLastD now)
      (polls.foldl (fun a now => Pace.poll period now a) activity) := by
  induction polls generalizing now activity with
  | nil => exact h
  | cons next rest ih =>
    obtain ⟨⟨hle, hgap⟩, hrest⟩ := List.isChain_cons_cons.mp hdense
    rw [List.getLastD_cons]
    exact ih (h.poll hle hgap) hrest

/-- An activity on time has fired once for every whole period that has passed. -/
theorem OnTime.fired (h : OnTime period start before now activity) :
    (activity.2 : Int) - before = ⌊(now - start) / period⌋ := by
  have hdeadline := h.deadline
  have hreached := h.reached
  have hrecent := h.recent
  have hperiod : 0 < period := by linarith
  symm
  rw [Int.floor_eq_iff, le_div_iff₀ hperiod, div_lt_iff₀ hperiod]
  push_cast
  constructor
  · linarith
  · linarith

/-- **No period is lost and none counted twice**, from the start of an activity to its last look at
the clock. -/
theorem fired_of_polls (hperiod : 0 < period) {polls : List Rat}
    (hdense : (start :: (polls ++ [now])).IsChain fun a b => a ≤ b ∧ b - a ≤ period)
    (hactivity : activity =
      (polls ++ [now]).foldl (fun a now => Pace.poll period now a) (start, before)) :
    (activity.2 : Int) - before = ⌊(now - start) / period⌋ := by
  have hstart : OnTime period start before start (start, before) := onTime_start hperiod
  have honTime := hstart.polls hdense
  rw [← hactivity, List.getLastD_concat] at honTime
  exact honTime.fired

end Pace

/-! ## The loop -/

/-- **Both rates are exact**, and nothing drifts, as long as the loop polls often enough.

A run enters its loop at the time `start`. If none of the looks at the clock goes back, and none
comes later than the shorter one of the two periods after the one before, then after every
iteration with which the machine goes on, the number of instructions executed in the loop is that
of the whole instruction periods since `start`, and the number of timer ticks that of the whole
timer periods, whatever the time has been spent on. -/
theorem Rig.rates_exact {ω : Type} (host : Host ω Rat) {s u : Rig ω Rat} {start now : Rat}
    {polls : List Rat} {l : Loop ω Rat} (hready : s.ready host = (u, none))
    (hinstruction : 0 < u.machine.config.instructionPeriod)
    (htimer : 0 < u.machine.config.timerPeriod) (hstart : (host.clock u.world).1 = start)
    (hpasses : (u.enterLoop host).Passes host (polls ++ [now]) l)
    (hdense : (start :: (polls ++ [now])).IsChain fun a b => a ≤ b ∧
      b - a ≤ min u.machine.config.instructionPeriod u.machine.config.timerPeriod)
    (hgo : l.rig.machine.goesOn = true) :
    (∀ fuel, s.run host ((polls ++ [now]).length + fuel) = l.finish host fuel) ∧
    (l.rig.machine.cycles : Int) - u.machine.cycles =
      ⌊(now - start) / u.machine.config.instructionPeriod⌋ ∧
    (l.rig.machine.ticks : Int) - u.machine.ticks =
      ⌊(now - start) / u.machine.config.timerPeriod⌋ := by
  obtain ⟨hinstructions, htimers⟩ := hpasses.polled hgo
  subst hstart
  refine ⟨fun fuel => ?_, ?_, ?_⟩
  · have hrates : u.machine.config.hasRates = true := rfl
    rw [s.run_of_ready host _ hready, if_pos hrates]
    exact hpasses.finish fuel
  · exact Pace.fired_of_polls hinstruction
      (hdense.imp fun a b h => ⟨h.1, h.2.trans (min_le_left _ _)⟩) hinstructions
  · exact Pace.fired_of_polls htimer
      (hdense.imp fun a b h => ⟨h.1, h.2.trans (min_le_right _ _)⟩) htimers

/-- Two instructions and one timer tick a second. -/
def Config.slow : Config Rat where
  instructionRate := 2
  timerRate := 1
  pause := 1 / 2
  seed := 0

/-- A host whose observer takes half a second for every instruction. -/
def Host.slow : Host Rat Rat :=
  { Host.exact with observer := fun _ _ _ => ([.affect fun now => now + 1 / 2], none) }

/-- A machine that jumps to itself and has started at the time zero. -/
def Rig.slow : Rig Rat Rat :=
  (Rig.boot Host.slow ⟨Machine.new [0x12, 0x00] Config.slow .info, 0⟩).1

/-- A sleep and an observer take half a second each; after one second the machine has executed two
instructions and ticked once. -/
theorem Rig.slow_rates_exact :
    ∃ l, (slow.enterLoop Host.slow).Passes Host.slow ([0, 1 / 2] ++ [1]) l ∧
      l.rig.machine.cycles = 2 ∧ l.rig.machine.ticks = 1 := by
  have hpasses : ∃ l, (slow.enterLoop Host.slow).Passes Host.slow ([0, 1 / 2] ++ [1]) l ∧
      l.rig.machine.goesOn = true := by
    refine ⟨_, .pass ?_ ?_ ?_ (.pass ?_ ?_ ?_ (.pass ?_ ?_ ?_ (.rest _))), ?_⟩
    all_goals decide +kernel
  obtain ⟨l, hpasses, hgo⟩ := hpasses
  have hready : slow.ready Host.slow = (slow, none) := rfl
  have hinstruction : slow.machine.config.instructionPeriod = 1 / 2 := by decide +kernel
  have htimer : slow.machine.config.timerPeriod = 1 := by decide +kernel
  have hcounts : slow.machine.cycles = 0 ∧ slow.machine.ticks = 0 := by decide +kernel
  obtain ⟨-, hcycles, hticks⟩ := rates_exact Host.slow hready
    (by rw [hinstruction]; norm_num) (by rw [htimer]; norm_num) rfl hpasses
    (by decide +kernel) hgo
  have hstart : (Host.slow.clock slow.world).1 = 0 := by decide +kernel
  rw [hstart, hinstruction, hcounts.1] at hcycles
  rw [hstart, htimer, hcounts.2] at hticks
  norm_num at hcycles hticks
  exact ⟨l, hpasses, by omega, by omega⟩

end Chip8
