/-
Chip8.Proofs.Polling — what an iteration of the loop does to the deadlines
of its two activities and to their counts.

The loop polls: it looks at the clock once an iteration, and each of the
two activities fires if it is due by then. `Pace.poll` is all that one
look does to the last deadline of an activity and to the number of times
that it has fired, and `Loop.Polled` says that an iteration does this to
both activities, each with its own period (`polled_of_iterate`). It needs
that the machine goes on at the end of the iteration: a stop request in
the middle suppresses the timer tick.

`Loop.Passes` is a number of iterations with the times that they see. The
loop is where they have led to (`Passes.finish`), and the activities have
been polled at these times, one after the other (`Passes.polled`).
-/
import Chip8.Proofs.Lifecycle

namespace Chip8

/-! ## Counts -/

namespace Rig

section

variable {ω τ : Type} [HasRates τ] {host : Host ω τ} {s t : Rig ω τ} {g : Bool}

/-- A tick is counted, and it leaves the settings as they are. -/
theorem counts_of_tick (h : s.machine.life = .running g) {failure : Option Failure}
    (htick : s.tick host = (t, failure)) :
    t.machine.cycles = s.machine.cycles ∧ t.machine.ticks = s.machine.ticks + 1 ∧
      t.machine.config = s.machine.config := by
  obtain ⟨state, -, heq⟩ := s.tick_of_ready host (s.ready_of_running host h)
  obtain ⟨phase, hphase⟩ := s.machine.mapState_frame State.tick
  rw [heq, hphase] at htick
  cases htick
  exact ⟨rfl, rfl, rfl⟩

variable [OfNat τ 0] [Sub τ]

/-- A cycle that does not fail is counted, and it leaves the settings as they are, whatever its
observer does. -/
theorem counts_of_cycle (h : s.machine.life = .running g) (hcycle : s.cycle host = (t, none)) :
    t.machine.cycles = s.machine.cycles + 1 ∧ t.machine.ticks = s.machine.ticks ∧
      t.machine.config = s.machine.config := by
  rcases s.cycle_cases host h with ⟨i, v, hobserved, -, heq⟩ | ⟨f, hfault, -⟩
  · obtain ⟨u, state, after, word, hready, -, -, rfl, rfl⟩ := s.observed?_eq_some host hobserved
    rw [s.ready_of_running host h] at hready
    cases hready
    obtain ⟨phase, hsample⟩ := s.machine.sample_frame (host.pressedKeys s.world)
    obtain ⟨phase', hcommit⟩ :=
      (s.machine.sample (host.pressedKeys s.world)).mapState_frame fun _ => after
    obtain ⟨phase'', journal, hnotify⟩ := notify_frame host _ _
    rw [← heq, hcycle, Machine.commit, hcommit, hsample] at hnotify
    have ht : t.machine = _ := hnotify
    rw [ht]
    exact ⟨rfl, rfl, rfl⟩
  · rw [hcycle] at hfault
    cases hfault

end

end Rig

/-! ## One look at the clock -/

/-- What a look at the clock does to the last deadline of an activity, and to the number of times
that it has fired. -/
def Pace.poll {τ : Type} [OfNat τ 4] [Add τ] [Sub τ] [Mul τ] [LE τ] [DecidableLE τ] (period now : τ)
    (activity : τ × Nat) : τ × Nat :=
  if isDue activity.1 period now then (next activity.1 period now, activity.2 + 1) else activity

namespace Loop

/-- The last deadline of the instructions, and their number. -/
def instructions {ω τ : Type} (l : Loop ω τ) : τ × Nat := (l.lastInstruction, l.rig.machine.cycles)

/-- The last deadline of the timer ticks, and their number. -/
def timers {ω τ : Type} (l : Loop ω τ) : τ × Nat := (l.lastTimer, l.rig.machine.ticks)

section

variable {ω τ : Type} {host : Host ω τ} {l l' : Loop ω τ}

/-- A sleep reaches neither activity. -/
theorem kept_of_idle {failure : Option Failure} (hidle : l.idle host = (l', failure)) :
    l'.instructions = l.instructions ∧ l'.timers = l.timers ∧
      l'.rig.machine.config = l.rig.machine.config := by
  unfold idle at hidle
  rcases hsleep : host.sleep l.rig.machine.config.pause l.rig.world with
    ⟨world, failure | stops⟩
  · rw [hsleep] at hidle
    cases hidle
    exact ⟨rfl, rfl, rfl⟩
  · rw [hsleep] at hidle
    cases stops with
    | false =>
      cases hidle
      exact ⟨rfl, rfl, rfl⟩
    | true =>
      obtain ⟨phase, hstop⟩ := l.rig.machine.stop_frame
      simp only [if_true, hstop] at hidle
      cases hidle
      exact ⟨rfl, rfl, rfl⟩

end

section

variable {ω τ : Type} [OfNat τ 1] [OfNat τ 4] [Add τ] [Sub τ] [Mul τ] [Div τ] [LE τ]
  [DecidableLE τ] [HasRates τ] {host : Host ω τ} {now : τ} {l l' : Loop ω τ}

/-- Both activities have been polled at the time `now`, and the settings are as before. -/
structure Polled (now : τ) (l l' : Loop ω τ) : Prop where
  instructions : l'.instructions =
    Pace.poll l.rig.machine.config.instructionPeriod now l.instructions
  timers : l'.timers = Pace.poll l.rig.machine.config.timerPeriod now l.timers
  config : l'.rig.machine.config = l.rig.machine.config

/-- A timer tick fires when it is due, and counts itself. -/
theorem polled_of_fireTimer {ticked : Bool} (h : l.rig.machine.goesOn = true)
    (hfire : l.fireTimer host now = (l', ticked, none)) :
    l'.instructions = l.instructions ∧
      l'.timers = Pace.poll l.rig.machine.config.timerPeriod now l.timers ∧
      l'.rig.machine.config = l.rig.machine.config := by
  unfold fireTimer at hfire
  by_cases hdue : Pace.isDue l.lastTimer l.rig.machine.config.timerPeriod now
  · rw [if_pos (by simp [h, hdue])] at hfire
    rcases htick : l.rig.tick host with ⟨rig, failure⟩
    obtain ⟨hcycles, hticks, hconfig⟩ := Rig.counts_of_tick (Machine.running_of_goesOn _ h) htick
    rw [htick] at hfire
    cases hfire
    simp [instructions, timers, Pace.poll, hdue, hcycles, hticks, hconfig]
  · rw [if_neg (by simp [hdue])] at hfire
    cases hfire
    simp [timers, Pace.poll, hdue]

variable [OfNat τ 0]

/-- An instruction fires when it is due, and counts itself. -/
theorem polled_of_fireInstruction {fired : Bool} (h : l.rig.machine.goesOn = true)
    (hfire : l.fireInstruction host now = (l', fired, none)) :
    l'.instructions = Pace.poll l.rig.machine.config.instructionPeriod now l.instructions ∧
      l'.timers = l.timers ∧ l'.rig.machine.config = l.rig.machine.config ∧
      (fired = false → l' = l) := by
  unfold fireInstruction at hfire
  by_cases hdue : Pace.isDue l.lastInstruction l.rig.machine.config.instructionPeriod now
  · rw [if_pos hdue] at hfire
    rcases hcycle : l.rig.cycle host with ⟨rig, failure⟩
    rw [hcycle] at hfire
    cases hfire
    obtain ⟨hcycles, hticks, hconfig⟩ := Rig.counts_of_cycle (Machine.running_of_goesOn _ h) hcycle
    simp [instructions, timers, Pace.poll, hdue, hcycles, hticks, hconfig]
  · rw [if_neg hdue] at hfire
    cases hfire
    simp [instructions, Pace.poll, hdue]

/-- An instruction and then a timer tick that is not suppressed by a stop. -/
theorem polled_of_fire {l₁ l₂ : Loop ω τ} {fired ticked : Bool} (h : l.rig.machine.goesOn = true)
    (hfire : l.fireInstruction host now = (l₁, fired, none))
    (hgo : l₁.rig.machine.goesOn = true) (htick : l₁.fireTimer host now = (l₂, ticked, none)) :
    Polled now l l₂ := by
  obtain ⟨hinstructions, htimers, hconfig, -⟩ := polled_of_fireInstruction h hfire
  obtain ⟨hkept, hticked, hconfig₂⟩ := polled_of_fireTimer hgo htick
  exact ⟨hkept.trans hinstructions, by rw [hticked, hconfig, htimers], hconfig₂.trans hconfig⟩

/-- An iteration after which the machine goes on has polled both activities at the time that it
saw. -/
theorem polled_of_iterates (h : l.rig.machine.goesOn = true)
    (hiterates : l.Iterates host now (l', none)) (hgo : l'.rig.machine.goesOn = true) :
    Polled now l l' := by
  cases hiterates with
  | @active l₁ _ fired ticked hfire htick hany =>
    refine polled_of_fire h hfire ?_ htick
    -- A stop that the observer requests holds until the end, as no timer tick fires then.
    by_contra hstop
    have hskipped : l₁.fireTimer host now = (l₁, false, none) := by
      unfold fireTimer
      rw [if_neg (by simp [hstop])]
    rw [hskipped] at htick
    cases htick
    exact hstop hgo
  | idle hfire htick hslept =>
    obtain ⟨-, -, -, hunfired⟩ := polled_of_fireInstruction h hfire
    have hpolled := polled_of_fire h hfire (by rw [hunfired rfl]; exact h) htick
    obtain ⟨hi, ht, hc⟩ := kept_of_idle hslept
    exact ⟨hi.trans hpolled.instructions, ht.trans hpolled.timers, hc.trans hpolled.config⟩

/-- The time that an iteration sees is the one that the clock shows. -/
theorem polled_of_iterate (h : l.rig.machine.goesOn = true)
    (hiterate : l.iterate host = (l', none)) (hgo : l'.rig.machine.goesOn = true) :
    Polled (l.rig.readClock host).1 l l' := by
  have hiterates := iterates_iterate host l
  rw [hiterate] at hiterates
  have hpolled := polled_of_iterates (l := { l with rig := (l.rig.readClock host).2 }) h
    hiterates hgo
  exact ⟨hpolled.instructions, hpolled.timers, hpolled.config⟩

/-! ## Many looks -/

/-- Iterations of a loop of which none fails, with the times that they see. -/
inductive Passes (host : Host ω τ) : Loop ω τ → List τ → Loop ω τ → Prop
  | rest (l : Loop ω τ) : Passes host l [] l
  | pass {l l' : Loop ω τ} {now : τ} {polls : List τ} (goesOn : l.rig.machine.goesOn = true)
      (seen : (l.rig.readClock host).1 = now) (ended : (l.iterate host).2 = none)
      (later : Passes host (l.iterate host).1 polls l') : Passes host l (now :: polls) l'

/-- The loop goes on from where its first iterations have led to. -/
theorem Passes.finish {polls : List τ} (h : Passes host l polls l') (fuel : Nat) :
    l.finish host (polls.length + fuel) = l'.finish host fuel := by
  induction h with
  | rest l => rw [List.length_nil, Nat.zero_add]
  | @pass l l' now polls hgo hseen hended _ ih =>
    have hiterate : l.iterate host = ((l.iterate host).1, none) := Prod.ext rfl hended
    rw [List.length_cons, Nat.add_right_comm, Loop.finish, if_pos hgo, hiterate]
    exact ih

/-- A machine that goes on at last has gone on from the first. -/
theorem Passes.goesOn_head {polls : List τ} (h : Passes host l polls l')
    (hgo : l'.rig.machine.goesOn = true) : l.rig.machine.goesOn = true := by
  cases h with
  | rest => exact hgo
  | pass hstart _ _ _ => exact hstart

/-- As long as the machine goes on, both activities have been polled at all the times. -/
theorem Passes.polled {polls : List τ} (h : Passes host l polls l')
    (hgo : l'.rig.machine.goesOn = true) :
    l'.instructions =
        polls.foldl (fun a now => Pace.poll l.rig.machine.config.instructionPeriod now a)
          l.instructions ∧
      l'.timers =
        polls.foldl (fun a now => Pace.poll l.rig.machine.config.timerPeriod now a) l.timers := by
  induction h with
  | rest l => exact ⟨rfl, rfl⟩
  | pass hstart hseen hended later ih =>
    have hpolled := polled_of_iterate hstart (Prod.ext rfl hended) (later.goesOn_head hgo)
    rw [hseen] at hpolled
    obtain ⟨hinstructions, htimers⟩ := ih hgo
    rw [hpolled.config, hpolled.instructions] at hinstructions
    rw [hpolled.config, hpolled.timers] at htimers
    exact ⟨hinstructions, htimers⟩

end

end Loop

end Chip8
