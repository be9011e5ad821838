/-
Chip8.Proofs.Stopping — a stop request is kept if it reaches a running
machine, and lost if it comes before the machine has started.

`Life.Stopped` is the invariant: the machine runs and does not go on, or
it has halted. A stop request brings a running machine there, and every
call but a boot keeps it there (`stopped_after`), so a run at the end of
any such history does nothing but halt (`run_of_stopped`).

A machine that has not started cannot be reached: the request leaves no
trace, and the boot inside the next cycle, tick or run starts a machine
that goes on. `stop_request_fate` states both cases, and
`stop_before_start_lost` shows an instruction that is executed after a
lost request.
-/
import Chip8.Proofs.History
import Chip8.Proofs.Outcome

namespace Chip8

namespace Life

/-- The machine has started, and it executes nothing more by itself. -/
def Stopped : Life → Prop
  | .booting => False
  | .running goesOn => goesOn = false
  | .halted _ => True

theorem stopped_cases {l : Life} (h : l.Stopped) :
    l = .running false ∨ ∃ error, l = .halted error := by
  cases l with
  | booting => exact h.elim
  | running g => exact .inl (congrArg running h)
  | halted error => exact .inr ⟨error, rfl⟩

theorem stopped_stop {l : Life} (h : l.Stopped) : l.stop.Stopped := by
  cases l with
  | booting => exact h
  | running g => rfl
  | halted error => exact h

theorem stopped_halt (error : Option Failure) (l : Life) : (l.halt error).Stopped := by
  cases l <;> exact True.intro

/-- No action of an observer takes a stop request back. -/
theorem stopped_act {ω : Type} {l : Life} (h : l.Stopped) (a : Action ω) : (l.act a).Stopped := by
  cases a with
  | affect f => exact h
  | stop => exact stopped_stop h
  | halt error => exact stopped_halt error l
  | trace => exact h

theorem stopped_foldl_act {ω : Type} (actions : List (Action ω)) {l : Life} (h : l.Stopped) :
    (actions.foldl act l).Stopped := by
  induction actions generalizing l with
  | nil => exact h
  | cons a rest ih => exact ih (stopped_act h a)

/-- No action takes a machine back to where it has not started. -/
theorem act_ne_booting {ω : Type} {l : Life} (h : l ≠ .booting) (a : Action ω) :
    l.act a ≠ .booting := by
  cases l with
  | booting => exact absurd rfl h
  | running g => cases a <;> exact Life.noConfusion
  | halted error => cases a <;> exact Life.noConfusion

/-- An observer that asks for a stop gets it, unless the machine has not started. -/
theorem stopped_of_stop_mem {ω : Type} (actions : List (Action ω)) (hstop : Action.stop ∈ actions)
    {l : Life} (h : l ≠ .booting) : (actions.foldl act l).Stopped := by
  induction actions generalizing l with
  | nil => cases hstop
  | cons a rest ih =>
    rcases List.mem_cons.mp hstop with rfl | hrest
    · -- From the request on nothing takes it back; before it only the start matters.
      refine stopped_foldl_act rest ?_
      cases l with
      | booting => exact absurd rfl h
      | running g => rfl
      | halted error => exact True.intro
    · exact ih hrest (act_ne_booting h a)

end Life

namespace Rig

variable {ω τ : Type} [OfNat τ 0] [OfNat τ 1] [OfNat τ 4] [Add τ] [Sub τ] [Mul τ] [Div τ]
  [LE τ] [DecidableLE τ] [HasRates τ] (host : Host ω τ)

/-! ## What is stopped stays stopped -/

/-- A run of a stopped machine reads the clock, twice, and halts the machine. -/
theorem run_of_stopped (s : Rig ω τ) (fuel : Nat) (h : s.machine.life = .running false)
    (hrates : s.machine.config.hasRates) :
    ∃ journal, s.run host (fuel + 1) =
      some (⟨{ s.machine with phase := .halted s.machine.state? none, journal := journal },
        (host.clock (host.clock s.world).2).2⟩, none) := by
  have hgo : (s.enterLoop host).rig.machine.goesOn = false :=
    s.machine.goesOn_of_running h
  obtain ⟨journal, hhalt⟩ := (s.enterLoop host).rig.halt_of_running host none h
  refine ⟨journal, ?_⟩
  rw [s.run_of_ready host (fuel + 1) (s.ready_of_running host h), if_pos hrates]
  unfold Loop.finish
  rw [hgo, if_neg Bool.false_ne_true, hhalt]
  rfl

/-- A run of a stopped machine leaves it stopped. -/
theorem stopped_run {s t : Rig ω τ} {failure : Option Failure} (fuel : Nat)
    (h : s.machine.life.Stopped) (hrun : s.run host fuel = some (t, failure)) :
    t.machine.life.Stopped := by
  rcases Life.stopped_cases h with hl | ⟨error, hl⟩
  · have hready := s.ready_of_running host hl
    by_cases hrates : s.machine.config.hasRates
    · cases fuel with
      | zero =>
        rw [s.run_of_ready host 0 hready, if_pos hrates] at hrun
        cases hrun
      | succ fuel =>
        obtain ⟨journal, hu⟩ := s.run_of_stopped host fuel hl hrates
        rw [hu] at hrun
        cases hrun
        exact True.intro
    · rw [s.run_of_ready host fuel hready, if_neg hrates] at hrun
      cases hrun
      exact h
  · rw [s.run_of_not_ready host fuel (s.ready_of_halted host hl)] at hrun
    cases hrun
    exact h

/-- **What one call keeps**: no call but a boot makes a stopped machine go on. -/
theorem stopped_after {s t : Rig ω τ} {c : Call ω} (hboot : c ≠ .boot)
    (h : s.machine.life.Stopped) (hc : s.after host c = some t) : t.machine.life.Stopped := by
  cases c with
  | boot => exact absurd rfl hboot
  | cycle =>
    cases hc
    rcases Life.stopped_cases h with hl | ⟨error, hl⟩
    · rcases s.cycle_cases host hl with ⟨i, u, -, hu, hcycle⟩ | ⟨f, -, hhalted⟩
      · rw [hcycle, life_notify, hu, ← hl]
        exact Life.stopped_foldl_act _ h
      · rw [hhalted]
        exact True.intro
    · rw [s.cycle_of_not_ready host (s.ready_of_halted host hl)]
      exact h
  | tick =>
    cases hc
    rcases Life.stopped_cases h with hl | ⟨error, hl⟩
    · rw [s.life_tick host hl, ← hl]
      exact h
    · rw [s.tick_of_not_ready host (s.ready_of_halted host hl)]
      exact h
  | stop =>
    cases hc
    rw [Machine.life_stop]
    exact Life.stopped_stop h
  | halt error =>
    cases hc
    rw [life_halt]
    exact Life.stopped_halt error _
  | run fuel =>
    obtain ⟨⟨u, failure⟩, hrun, rfl⟩ := Option.map_eq_some_iff.mp hc
    exact stopped_run host fuel h hrun
  | runDetached fuel =>
    obtain ⟨⟨u, failure⟩, hrun, rfl⟩ := Option.map_eq_some_iff.mp hc
    exact stopped_run host fuel h hrun
  | affect f =>
    cases hc
    exact h

/-- **What a history keeps**: without a boot in it a stopped machine stays stopped. -/
theorem stopped_afterAll {s t : Rig ω τ} {calls : List (Call ω)}
    (hboot : ∀ c ∈ calls, c ≠ .boot) (h : s.machine.life.Stopped)
    (hcalls : s.afterAll host calls = some t) : t.machine.life.Stopped :=
  afterAll_preserves host (P := fun u => u.machine.life.Stopped) calls
    (fun c hc _ _ hu => stopped_after host (hboot c hc) hu) h hcalls

/-! ## Stop requests -/

/-- A call with which a stop is requested: the request itself, or a cycle whose observer answers
with it. -/
inductive AsksToStop (s : Rig ω τ) : Call ω → Prop
  | request : AsksToStop s .stop
  | observer {i : Instruction} {t : Rig ω τ} (executed : s.observed? host = some (i, t))
      (answer : Action.stop ∈ (host.observer t.machine i t.world).1) : AsksToStop s .cycle

/-- A run ends at its first look at the request, without an instruction and without a tick; the
machine has halted and has no error. -/
def RunsIdle (t : Rig ω τ) : Prop :=
  ∀ fuel, ∃ u, t.run host (fuel + 1) = some (u, none) ∧
    t.runDetached host (fuel + 1) = some u ∧ u.Records none ∧
    u.machine.cycles = t.machine.cycles ∧ u.machine.ticks = t.machine.ticks ∧
    u.machine.previous = t.machine.previous ∧ u.machine.state? = t.machine.state?

/-- A stop request stops the machine, unless it comes before the start. -/
theorem stopped_of_asksToStop {s t : Rig ω τ} {c : Call ω} (hasks : s.AsksToStop host c)
    (hstarted : ¬ (c = .stop ∧ s.machine.status = .booting)) (hc : s.after host c = some t) :
    t.machine.life.Stopped := by
  cases hasks with
  | request =>
    cases hc
    rw [Machine.life_stop]
    cases hl : s.machine.life with
    | booting => exact absurd ⟨rfl, by rw [Machine.status_eq, hl]; rfl⟩ hstarted
    | running g => rfl
    | halted error => exact True.intro
  | @observer i u hexecuted hanswer =>
    cases hc
    obtain ⟨g, hg⟩ := s.running_of_observed host hexecuted
    rw [s.cycle_of_observed host hexecuted, life_notify]
    exact Life.stopped_of_stop_mem _ hanswer (by rw [hg]; exact Life.noConfusion)

/-- A stop request before the start leaves no trace. -/
theorem after_stop_of_booting (s : Rig ω τ) (h : s.machine.status = .booting) :
    s.after host .stop = some s := by
  have hphase := s.machine.phase_of_booting (s.machine.life_of_booting h)
  show some { s with machine := s.machine.stop } = some s
  unfold Machine.stop
  rw [hphase]

/-- A machine that was stopped and is not halted has a run that does nothing, if its rates have
periods. -/
theorem runsIdle_of_stopped {t : Rig ω τ} (h : t.machine.life = .running false)
    (hrates : t.machine.config.hasRates) : t.RunsIdle host := by
  intro fuel
  obtain ⟨journal, hrun⟩ := t.run_of_stopped host fuel h hrates
  refine ⟨_, hrun, ?_, records_of_life rfl, rfl, rfl, rfl, rfl⟩
  unfold runDetached
  rw [hrun]
  rfl

/-- A loop that goes on is not over before its first iteration. -/
theorem finish_one_of_goesOn (l : Loop ω τ) (hgo : l.rig.machine.goesOn = true) (u : Rig ω τ) :
    l.finish host 1 ≠ some (u, none) := by
  unfold Loop.finish
  rw [if_pos hgo]
  rcases l.iterate host with ⟨l', _ | e⟩
  · intro h
    cases h
  · intro h
    cases h

/-- **The fate of a stop request** in a history in which no boot follows it and which leaves a
machine that is not halted.

Unless the request came before the start, the next run does nothing but end; a machine whose rates
have no periods fails there, and it does nothing either. A request that came before the start is
lost: the history leaves what it would have left without it, and a machine that has not started by
then enters its loop and goes on, so its run is not idle. -/
theorem stop_request_fate {s t : Rig ω τ} {c : Call ω} {calls : List (Call ω)}
    (hasks : s.AsksToStop host c) (hcalls : s.afterAll host (c :: calls) = some t)
    (hboot : Call.boot ∉ calls) (hlive : t.machine.status ≠ .halted) :
    (¬ (c = .stop ∧ s.machine.status = .booting) →
      (t.machine.config.hasRates = true → t.RunsIdle host) ∧
      (t.machine.config.hasRates = false →
        ∀ fuel, t.run host fuel = some (t, some .rateTooLarge))) ∧
    (c = .stop ∧ s.machine.status = .booting →
      s.afterAll host calls = some t ∧
      (t.machine.status = .booting → t.machine.obstacle = none →
        ¬ t.RunsIdle host ∧
        ∃ u : Rig ω τ, u.machine.goesOn = true ∧
          ∀ fuel, t.run host fuel = (u.enterLoop host).finish host fuel)) := by
  obtain ⟨v, hv, hrest⟩ := (afterAll_cons_eq_some host).mp hcalls
  constructor
  · intro hstarted
    have hstopped := stopped_afterAll host (fun c' hc' heq => hboot (heq ▸ hc'))
      (stopped_of_asksToStop host hasks hstarted hv) hrest
    have hlife : t.machine.life = .running false := by
      rcases Life.stopped_cases hstopped with hl | ⟨error, hl⟩
      · exact hl
      · exact absurd (by rw [Machine.status_eq, hl]; rfl) hlive
    refine ⟨runsIdle_of_stopped host hlife, fun hrates fuel => ?_⟩
    rw [t.run_of_ready host fuel (t.ready_of_running host hlife), hrates]
    rfl
  · rintro ⟨rfl, hbooting⟩
    rw [s.after_stop_of_booting host hbooting] at hv
    cases hv
    refine ⟨hrest, fun htbooting hobstacle => ?_⟩
    have hlife := t.machine.life_of_booting htbooting
    rcases t.run_cases host hlive with
      ⟨u, g, -, hu, ⟨-, rfl⟩ | hrunning, hloop⟩ | ⟨u, e, hsome, -, -⟩
    · have hgo : u.machine.goesOn = true := u.machine.goesOn_of_running hu
      refine ⟨fun hidle => ?_, u, hgo, hloop⟩
      obtain ⟨v, hrun, -⟩ := hidle 0
      rw [hloop] at hrun
      exact finish_one_of_goesOn host (u.enterLoop host) hgo v hrun
    · rw [hlife] at hrunning
      cases hrunning
    · rw [hobstacle] at hsome
      cases hsome

end Rig

/-! ## A machine with an exact clock -/

/-- The standard rates, without rounding. -/
def Config.exact : Config Rat where
  instructionRate := 500
  timerRate := 60
  pause := 1 / 2000
  seed := 0

/-- A host whose world is the time. Sleeping passes it, and the observer stops the machine after
one instruction. -/
def Host.exact : Host Rat Rat where
  clock now := (now, now)
  stamp now := now
  pressedKeys _ := []
  draw _ now := (now, none)
  sleep pause now := (now + pause, .ok false)
  observer := Observer.stopAt 1

/-- A machine whose program is a jump to itself, at the time zero. -/
def Rig.jumping : Rig Rat Rat := ⟨Machine.new [0x12, 0x00] Config.exact .info, 0⟩

/-- After a start and a stop request the run does nothing. -/
theorem Rig.stop_after_start_kept :
    ∃ t, jumping.afterAll Host.exact [.boot, .stop] = some t ∧ t.RunsIdle Host.exact := by
  have hcalls : (jumping.boot Host.exact).1.afterAll Host.exact [.stop] =
      some { (jumping.boot Host.exact).1 with
        machine := (jumping.boot Host.exact).1.machine.stop } := rfl
  have hstatus : (jumping.boot Host.exact).1.machine.status = .running := by decide +kernel
  have hlive : (jumping.boot Host.exact).1.machine.stop.status ≠ .halted := by decide +kernel
  refine ⟨_, hcalls, ((stop_request_fate Host.exact .request hcalls List.not_mem_nil hlive).1
    ?_).1 rfl⟩
  rintro ⟨-, hbooting⟩
  rw [hstatus] at hbooting
  cases hbooting

/-- **A stop request before the start is lost**: the run that follows executes an instruction. -/
theorem Rig.stop_before_start_lost :
    (jumping.afterAll Host.exact [.stop, .run 10]).map
      (fun t => (t.machine.status, t.machine.cycles)) = some (.halted, 1) := by
  decide +kernel

end Chip8
