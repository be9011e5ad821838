/-
Chip8.Proofs.Bursts — an activity never runs too fast, and what was missed
during a stall is not made up for in a burst.

Times are rational here, and nothing is assumed of them: the clock may
stand still, jump and go back. `Pace.firings` lists when an activity fires
that is polled at given times, with its last deadline after each firing.

A firing moves the last deadline by a period at least, and to less than
four periods behind the clock (`next_spec`). So the deadlines of an
activity lie a period apart (`spaced_firings`), and no more of them fit
between two times than their distance allows (`length_mul_period_lt`).
This bounds the firings in every window of time, `Pace.Unhurried`. The
loop of a machine polls its activities in no other way
(`Loop.exists_polls`).
-/
import Chip8.Proofs.Firings
import Chip8.Proofs.Stopping
import Mathlib.Data.Rat.Floor
import Mathlib.Tactic.Linarith
import Mathlib.Tactic.NormNum
import Mathlib.Tactic.Ring

namespace Chip8

namespace Pace

/-! ## One activity -/

/-- When an activity fires that has counted from the deadline `last` and is polled at the given
times. -/
def firings {τ : Type} [OfNat τ 4] [Add τ] [Sub τ] [Mul τ] [LE τ] [DecidableLE τ] (period : τ) :
    τ → List τ → List (Firing τ)
  | _, [] => []
  | last, now :: polls =>
    if isDue last period now then
      ⟨now, next last period now⟩ :: firings period (next last period now) polls
    else firings period last polls

/-- An activity that has counted from `start` is never ahead of its rate, and never four periods
behind it once it has fired. -/
structure Unhurried (period start : Rat) (fired : List (Firing Rat)) : Prop where
  /-- Right after a firing the last deadline is not in the future and not four periods old. -/
  lag : ∀ f ∈ fired, 0 ≤ f.now - f.last ∧ f.now - f.last < 4 * period
  /-- The firings up to any one of them take a period each. -/
  rate : ∀ earlier f later, fired = earlier ++ f :: later →
    ((earlier.length + 1 : Nat) : Rat) ≤ (f.now - start) / period
  /-- A window of time holds fewer than five firings more than it has periods. -/
  window : ∀ a b, a ≤ b →
    ((fired.countP fun f => a ≤ f.now ∧ f.now ≤ b : Nat) : Rat) < (b - a) / period + 5
  /-- No time sees more than four. -/
  burst : ∀ now, (fired.countP fun f => f.now = now) ≤ 4

variable {period start last now : Rat}

/-- A firing moves the last deadline by a period at least, and to where it is less than four
periods old. -/
theorem next_spec (hperiod : 0 < period) (hdue : isDue last period now = true) :
    last + period ≤ next last period now ∧ 0 ≤ now - next last period now ∧
      now - next last period now < 4 * period := by
  have hpassed : period ≤ now - last := of_decide_eq_true hdue
  unfold next
  by_cases hlag : 4 * period ≤ now - (last + period)
  · rw [if_pos hlag]
    exact ⟨by linarith, by linarith, by linarith⟩
  · rw [if_neg hlag]
    exact ⟨le_rfl, by linarith, by linarith⟩

/-- The deadlines lie a period apart, the first one a period after the start. -/
def Spaced (period start : Rat) (fired : List (Firing Rat)) : Prop :=
  (start :: fired.map Firing.last).Pairwise fun x y => x + period ≤ y

theorem spaced_cons {f : Firing Rat} {fired : List (Firing Rat)} (hperiod : 0 < period)
    (hf : start + period ≤ f.last) (h : Spaced period f.last fired) :
    Spaced period start (f :: fired) := by
  obtain ⟨hrest, -⟩ := List.pairwise_cons.mp h
  refine List.pairwise_cons.mpr ⟨fun y hy => ?_, h⟩
  rcases List.mem_cons.mp hy with rfl | hy
  · exact hf
  · have := hrest y hy
    linarith

/-- **Every firing takes a period**, and leaves a lag of less than four. -/
theorem spaced_firings (hperiod : 0 < period) (start : Rat) (polls : List Rat) :
    Spaced period start (firings period start polls) ∧
      ∀ f ∈ firings period start polls, 0 ≤ f.now - f.last ∧ f.now - f.last < 4 * period := by
  induction polls generalizing start with
  | nil => exact ⟨List.pairwise_singleton _ _, fun f hf => absurd hf List.not_mem_nil⟩
  | cons now polls ih =>
    unfold firings
    by_cases hdue : isDue start period now
    · obtain ⟨hmoved, hlag⟩ := next_spec hperiod hdue
      obtain ⟨hspaced, hrest⟩ := ih (next start period now)
      rw [if_pos hdue]
      refine ⟨spaced_cons hperiod hmoved hspaced, fun f hf => ?_⟩
      rcases List.mem_cons.mp hf with rfl | hf
      · exact hlag
      · exact hrest f hf
    · rw [if_neg hdue]
      exact ih start

/-- As many periods lie between the start and a deadline as there are firings up to it. -/
theorem length_mul_period_le {earlier later : List (Firing Rat)} {f : Firing Rat}
    (h : Spaced period start (earlier ++ f :: later)) :
    ((earlier.length + 1 : Nat) : Rat) * period ≤ f.last - start := by
  induction earlier generalizing start with
  | nil =>
    have hf := (List.pairwise_cons.mp h).1 f.last List.mem_cons_self
    simp only [List.length_nil, zero_add, Nat.cast_one, one_mul]
    linarith
  | cons g rest ih =>
    obtain ⟨hstart, hrest⟩ := List.pairwise_cons.mp h
    have hg := hstart g.last List.mem_cons_self
    have hlater := ih hrest
    rw [List.length_cons, Nat.cast_succ, add_mul]
    linarith

/-- Numbers that lie a period apart take up room. -/
theorem length_mul_period_lt {xs : List Rat} (h : xs.Pairwise fun x y => x + period ≤ y)
    {low high : Rat} (hlow : ∀ x ∈ xs, low < x) (hhigh : ∀ x ∈ xs, x ≤ high)
    (hroom : low < high + period) : (xs.length : Rat) * period < high - low + period := by
  induction xs generalizing low with
  | nil =>
    simp only [List.length_nil, Nat.cast_zero, zero_mul]
    linarith
  | cons x rest ih =>
    obtain ⟨hnext, hrest⟩ := List.pairwise_cons.mp h
    have hx := hlow x List.mem_cons_self
    have hx' := hhigh x List.mem_cons_self
    have hlater : (rest.length : Rat) * period < high - (low + period) + period :=
      ih hrest (fun y hy => by linarith [hnext y hy])
        (fun y hy => hhigh y (List.mem_cons_of_mem x hy)) (by linarith)
    rw [List.length_cons, Nat.cast_succ, add_mul]
    linarith

/-- **A window of time holds few firings**: the deadline that the first of them leads to is less
than four periods older than the window. -/
theorem countP_window_lt (hperiod : 0 < period) {fired : List (Firing Rat)}
    (hspaced : Spaced period start fired)
    (hlag : ∀ f ∈ fired, 0 ≤ f.now - f.last ∧ f.now - f.last < 4 * period) {a b : Rat}
    (hab : a ≤ b) :
    ((fired.countP fun f => a ≤ f.now ∧ f.now ≤ b : Nat) : Rat) < (b - a) / period + 5 := by
  have hinside : ∀ x ∈ (fired.filter fun f => a ≤ f.now ∧ f.now ≤ b).map Firing.last,
      a - 4 * period < x ∧ x ≤ b := by
    intro x hx
    obtain ⟨f, hf, rfl⟩ := List.mem_map.mp hx
    obtain ⟨hf, hwindow⟩ := List.mem_filter.mp hf
    obtain ⟨ha, hb⟩ := of_decide_eq_true hwindow
    obtain ⟨hreached, hlate⟩ := hlag f hf
    exact ⟨by linarith, by linarith⟩
  have hpairwise : ((fired.filter fun f => a ≤ f.now ∧ f.now ≤ b).map Firing.last).Pairwise
      fun x y => x + period ≤ y :=
    hspaced.of_cons.sublist (List.filter_sublist.map Firing.last)
  have hroom := length_mul_period_lt hpairwise (fun x hx => (hinside x hx).1)
    (fun x hx => (hinside x hx).2) (by linarith)
  rw [List.length_map, ← List.countP_eq_length_filter] at hroom
  have hlt : ((fired.countP fun f => a ≤ f.now ∧ f.now ≤ b : Nat) : Rat) <
      (b - a + 5 * period) / period := by
    rw [lt_div_iff₀ hperiod]
    linarith
  rwa [add_div, mul_div_cancel_right₀ _ hperiod.ne'] at hlt

/-- **An activity is unhurried** whatever times it is polled at. -/
theorem unhurried_firings (hperiod : 0 < period) (start : Rat) (polls : List Rat) :
    Unhurried period start (firings period start polls) := by
  obtain ⟨hspaced, hlag⟩ := spaced_firings hperiod start polls
  refine ⟨hlag, fun earlier f later hfired => ?_, fun a b hab =>
    countP_window_lt hperiod hspaced hlag hab, fun now => ?_⟩
  · have hf := hlag f (hfired ▸ List.mem_append_right earlier List.mem_cons_self)
    rw [hfired] at hspaced
    have hlength := length_mul_period_le hspaced
    rw [le_div_iff₀ hperiod]
    linarith
  · have hnow := countP_window_lt hperiod hspaced hlag (le_refl now)
    rw [sub_self, zero_div, zero_add] at hnow
    have hsame : (firings period start polls).countP (fun f => now ≤ f.now ∧ f.now ≤ now) =
        (firings period start polls).countP fun f => f.now = now :=
      List.countP_congr fun f _ => by simp [le_antisymm_iff, and_comm]
    rw [hsame] at hnow
    have hfive : (firings period start polls).countP (fun f => f.now = now) < 5 := by
      exact_mod_cast hnow
    omega

end Pace

/-! ## The loop -/

/-- The firings of an activity in a loop are those of an activity that is polled. -/
theorem Loop.exists_polls {ω : Type} (host : Host ω Rat) (a : Activity) (fuel : Nat)
    (l : Loop ω Rat) :
    ∃ polls, a.firings (l.firings host fuel) =
      Pace.firings (a.period l.rig.machine.config) (l.last a) polls := by
  induction fuel generalizing l with
  | zero => exact ⟨[], rfl⟩
  | succ fuel ih =>
    by_cases hgo : l.rig.machine.goesOn
    · have hfires := fires_iterate host l
      -- What an iteration without a failure is followed by.
      have hlater : ∀ l', l.iterate host = (l', none) →
          ∃ polls, a.firings (l'.firings host fuel) =
            Pace.firings (a.period l.rig.machine.config) (l'.last a) polls := by
        intro l' hiterate
        rw [hiterate] at hfires
        obtain ⟨polls, hpolls⟩ := ih l'
        rw [(hfires.counts hgo).2.2] at hpolls
        exact ⟨polls, hpolls⟩
      have hcases := hfires.cases_of hgo a
      rcases hiterate : l.iterate host with ⟨l', _ | e⟩
      · obtain ⟨polls, hpolls⟩ := hlater l' hiterate
        rw [hiterate] at hcases
        rw [firings_of_success host fuel hgo hiterate, Activity.firings_append, hpolls]
        rcases hcases with ⟨hnone, hlast⟩ | ⟨hdue, hone, hlast⟩
        · exact ⟨polls, by rw [hnone, hlast l' rfl]; rfl⟩
        · refine ⟨(l.rig.readClock host).1 :: polls, ?_⟩
          rw [hone, hlast l' rfl, Pace.firings]
          exact (if_pos hdue).symm
      · rw [firings_of_failure host fuel hgo hiterate]
        rcases hcases with ⟨hnone, -⟩ | ⟨hdue, hone, -⟩
        · exact ⟨[], hnone⟩
        · refine ⟨[(l.rig.readClock host).1], ?_⟩
          rw [hone, Pace.firings]
          exact (if_pos hdue).symm
    · rw [firings_of_stopped host (fuel + 1) hgo]
      exact ⟨[], rfl⟩

/-- **The scheduler never runs too fast and never bursts.** An activity with any period, start and
sequence of polls is unhurried, and so are both activities of every run: right after a firing the
last deadline is less than four periods old and not in the future, the firings so far take a
period each, and however long a stall was, a window of time holds fewer than five firings more
than it has periods, and no time more than four. What a run fires is what its machine counts. -/
theorem Rig.run_unhurried :
    (∀ (period start : Rat) (polls : List Rat), 0 < period →
      Pace.Unhurried period start (Pace.firings period start polls)) ∧
    ∀ {ω : Type} (host : Host ω Rat) (s u : Rig ω Rat) (fuel : Nat), s.ready host = (u, none) →
      (∀ a : Activity, 0 < a.period u.machine.config →
        Pace.Unhurried (a.period u.machine.config) (host.clock u.world).1
          (a.firings ((u.enterLoop host).firings host fuel))) ∧
      ∀ t, s.run host fuel = some (t, none) →
        t.machine.cycles = u.machine.cycles +
          (Activity.instruction.firings ((u.enterLoop host).firings host fuel)).length ∧
        t.machine.ticks = u.machine.ticks +
          (Activity.timer.firings ((u.enterLoop host).firings host fuel)).length := by
  refine ⟨fun period start polls hperiod => Pace.unhurried_firings hperiod start polls, ?_⟩
  intro ω host s u fuel hready
  constructor
  · intro a hperiod
    obtain ⟨polls, hpolls⟩ := Loop.exists_polls host a fuel (u.enterLoop host)
    have hstart : (u.enterLoop host).last a = (host.clock u.world).1 := by cases a <;> rfl
    rw [hpolls, hstart]
    exact Pace.unhurried_firings hperiod _ polls
  · intro t hrun
    have hrates : u.machine.config.hasRates = true := rfl
    rw [s.run_of_ready host fuel hready, if_pos hrates] at hrun
    exact Loop.counts_of_finish fuel (u.enterLoop host) hrun

/-- An instruction a second, a timer tick every ten seconds, and sleeps of four and a half. -/
def Config.drowsy : Config Rat where
  instructionRate := 1
  timerRate := 1 / 10
  pause := 9 / 2
  seed := 0

/-- A host whose world is the time, and whose observer does nothing. -/
def Host.silent : Host Rat Rat := { Host.exact with observer := Observer.silent }

/-- A machine that jumps to itself and sleeps long. -/
def Rig.drowsy : Rig Rat Rat := ⟨Machine.new [0x12, 0x00] Config.drowsy .info, 0⟩

/-- After a sleep of four and a half periods the four missed instructions are executed at one time,
as many as possible. After a stall of five periods there is only one. -/
theorem Rig.four_after_sleep :
    (∃ u, drowsy.ready Host.silent = (u, none) ∧
      Activity.instruction.firings ((u.enterLoop Host.silent).firings Host.silent 5) =
        [⟨9 / 2, 1⟩, ⟨9 / 2, 2⟩, ⟨9 / 2, 3⟩, ⟨9 / 2, 4⟩] ∧
      (Activity.instruction.firings ((u.enterLoop Host.silent).firings Host.silent 5)).countP
        (fun f => f.now = 9 / 2) ≤ 4) ∧
    Pace.firings (1 : Rat) 0 [5, 5, 5] = [⟨5, 5⟩] ∧
    Pace.Unhurried 1 0 (Pace.firings (1 : Rat) 0 [5, 5, 5]) := by
  have hready : drowsy.ready Host.silent = ((drowsy.boot Host.silent).1, none) := rfl
  have hfired : Activity.instruction.firings
      (((drowsy.boot Host.silent).1.enterLoop Host.silent).firings Host.silent 5) =
        [⟨9 / 2, 1⟩, ⟨9 / 2, 2⟩, ⟨9 / 2, 3⟩, ⟨9 / 2, 4⟩] := by
    decide +kernel
  have hperiod : 0 < Activity.instruction.period (drowsy.boot Host.silent).1.machine.config := by
    decide +kernel
  have hunhurried := (run_unhurried.2 Host.silent drowsy _ 5 hready).1 .instruction hperiod
  have hstall : Pace.firings (1 : Rat) 0 [5, 5, 5] = [⟨5, 5⟩] := by decide +kernel
  exact ⟨⟨_, hready, hfired, hunhurried.burst (9 / 2)⟩, hstall,
    run_unhurried.1 1 0 [5, 5, 5] one_pos⟩

end Chip8
