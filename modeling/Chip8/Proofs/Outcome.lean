/-
Chip8.Proofs.Outcome — where the failure of a run is recorded, and where
it is lost.

Once a run has entered its loop, `finish_recorded` holds: whatever ends
the loop, the machine has halted with exactly the failure that the run
ends with. The invariant is `Life.Accounts`, which every cycle, tick and
iteration keeps; a fault halts the machine inside the cycle, and the halt
after the loop cannot overwrite it.

`Machine.obstacle` names what ends a run before its loop: a seed that is
no seed, a program that does not fit, rates without a period.
`run_records_failure` says that a run records its failure exactly if there
is no obstacle. With one the failure is lost: the machine is not halted,
its error is none, and the command line ends with code 0
(`large_program_failure_lost`).
-/
import Chip8.CommandLine.Session
import Chip8.Proofs.Lifecycle

namespace Chip8

/-- An observer that does not halt the machine. -/
def Observer.NeverHalts {ω τ : Type} (o : Observer ω τ) : Prop :=
  ∀ m i w error, Action.halt error ∉ (o m i w).1

namespace Life

/-- A machine with this life runs, or a call that ended with `failure` has halted it for that. -/
def Accounts (failure : Option Failure) : Life → Prop
  | .booting => False
  | .running _ => True
  | .halted error => failure ≠ none ∧ error = failure

/-- Without a failure a machine that accounts for it runs. -/
theorem running_of_accounts {l : Life} (h : l.Accounts none) : ∃ g, l = .running g := by
  cases l with
  | booting => exact h.elim
  | running g => exact ⟨g, rfl⟩
  | halted error => exact absurd rfl h.1

/-- The halt after a loop records a failure that is not recorded yet, and does not overwrite one
that is. -/
theorem halt_of_accounts {l : Life} {failure : Option Failure} (h : l.Accounts failure) :
    l.halt failure = .halted failure := by
  cases l with
  | booting => exact h.elim
  | running g => rfl
  | halted error =>
    obtain ⟨-, rfl⟩ := h
    rfl

/-- Actions that do not halt a running machine leave it running. -/
theorem running_foldl_act {ω : Type} (actions : List (Action ω))
    (h : ∀ error, Action.halt error ∉ actions) (g : Bool) :
    ∃ g', actions.foldl act (.running g) = .running g' := by
  induction actions generalizing g with
  | nil => exact ⟨g, rfl⟩
  | cons a rest ih =>
    have hrest : ∀ error, Action.halt error ∉ rest := fun error he =>
      h error (List.mem_cons_of_mem a he)
    cases a with
    | affect f => exact ih hrest g
    | stop => exact ih hrest false
    | halt error => exact absurd List.mem_cons_self (h error)
    | trace => exact ih hrest g

end Life

/-! ## The loop accounts for its failures -/

/-- A cycle halts a running machine for a fault, and then fails with it. -/
theorem Rig.cycle_accounts {ω τ : Type} [OfNat τ 0] [Sub τ] [HasRates τ] {host : Host ω τ}
    (hobs : host.observer.NeverHalts) (s : Rig ω τ) {g : Bool} (h : s.machine.life = .running g) :
    (s.cycle host).1.machine.life.Accounts (s.cycle host).2 := by
  rcases s.cycle_cases host h with ⟨i, t, -, ht, hcycle⟩ | ⟨f, hfailure, hlife⟩
  · obtain ⟨g', hg'⟩ := Life.running_foldl_act (host.observer t.machine i t.world).1
      (hobs t.machine i t.world) g
    rw [hcycle, Rig.life_notify, ht, hg']
    exact True.intro
  · rw [hfailure, hlife]
    exact ⟨Option.some_ne_none _, rfl⟩

namespace Loop

variable {ω τ : Type} (host : Host ω τ)

theorem idle_running (l : Loop ω τ) {g : Bool} (h : l.rig.machine.life = .running g) :
    ∃ g', (l.idle host).1.rig.machine.life = .running g' := by
  unfold idle
  rcases host.sleep l.rig.machine.config.pause l.rig.world with ⟨world, failure | stops⟩
  · exact ⟨g, h⟩
  · cases stops with
    | false => exact ⟨g, h⟩
    | true =>
      refine ⟨false, ?_⟩
      show l.rig.machine.stop.life = _
      rw [Machine.life_stop, h]
      rfl

variable [OfNat τ 1] [OfNat τ 4] [Add τ] [Sub τ] [Mul τ] [Div τ] [LE τ] [DecidableLE τ] [HasRates τ]

theorem life_fireTimer (now : τ) (l : Loop ω τ) {g : Bool}
    (h : l.rig.machine.life = .running g) :
    (l.fireTimer host now).1.rig.machine.life = .running g := by
  unfold fireTimer
  by_cases hdue : l.rig.machine.goesOn && Pace.isDue l.lastTimer
      l.rig.machine.config.timerPeriod now
  · rw [if_pos hdue]
    exact l.rig.life_tick host h
  · rw [if_neg hdue]
    exact h

variable {host} [OfNat τ 0]

theorem fireInstruction_accounts (hobs : host.observer.NeverHalts) (now : τ) (l : Loop ω τ)
    {g : Bool} (h : l.rig.machine.life = .running g) :
    (l.fireInstruction host now).1.rig.machine.life.Accounts
      (l.fireInstruction host now).2.2 := by
  unfold fireInstruction
  by_cases hdue : Pace.isDue l.lastInstruction l.rig.machine.config.instructionPeriod now
  · rw [if_pos hdue]
    exact l.rig.cycle_accounts hobs h
  · rw [if_neg hdue, h]
    exact True.intro

/-- What one iteration keeps: the machine runs, or the failure of the iteration has halted it. -/
theorem iterate_accounts (hobs : host.observer.NeverHalts) (l : Loop ω τ) {g : Bool}
    (h : l.rig.machine.life = .running g) :
    (l.iterate host).1.rig.machine.life.Accounts (l.iterate host).2 := by
  -- The clock does not reach the machine, so it runs when the instruction fires.
  have hread : (l.rig.readClock host).2.machine.life = .running g := h
  have hinstruction := fireInstruction_accounts hobs (l.rig.readClock host).1
    { l with rig := (l.rig.readClock host).2 } hread
  have hiterates := iterates_iterate host l
  generalize l.iterate host = r at hiterates ⊢
  cases hiterates with
  | instructionFailed hfire =>
    rw [hfire] at hinstruction
    exact hinstruction
  | @timerFailed l₁ _ _ _ _ hfire htick | @active l₁ _ _ _ hfire htick _ =>
    rw [hfire] at hinstruction
    obtain ⟨g₁, hg₁⟩ := Life.running_of_accounts hinstruction
    have htimer := l₁.life_fireTimer host (l.rig.readClock host).1 hg₁
    rw [htick] at htimer
    rw [htimer]
    exact True.intro
  | @idle l₁ l₂ _ hfire htick hslept =>
    rw [hfire] at hinstruction
    obtain ⟨g₁, hg₁⟩ := Life.running_of_accounts hinstruction
    have htimer := l₁.life_fireTimer host (l.rig.readClock host).1 hg₁
    rw [htick] at htimer
    obtain ⟨g₂, hg₂⟩ := l₂.idle_running host htimer
    rw [← hslept, hg₂]
    exact True.intro

/-- **A loop records its failure**: it ends with the machine halted, and the error of the machine
is the failure that the loop ends with, or none. -/
theorem finish_recorded (hobs : host.observer.NeverHalts) (fuel : Nat) (l : Loop ω τ) {g : Bool}
    (h : l.rig.machine.life = .running g) {t : Rig ω τ} {failure : Option Failure}
    (hfinish : l.finish host fuel = some (t, failure)) : t.machine.life = .halted failure := by
  induction fuel generalizing l g with
  | zero => cases hfinish
  | succ fuel ih =>
    unfold finish at hfinish
    by_cases hgo : l.rig.machine.goesOn
    · -- An iteration without a failure leaves the machine running, so the loop goes on from it.
      rw [if_pos hgo] at hfinish
      have hiterate := l.iterate_accounts hobs h
      rcases hl : l.iterate host with ⟨l', _ | e⟩
      · rw [hl] at hiterate
        obtain ⟨g', hg'⟩ := Life.running_of_accounts hiterate
        simp only [hl] at hfinish
        exact ih l' hg' hfinish
      · rw [hl] at hiterate
        simp only [hl] at hfinish
        cases hfinish
        rw [Rig.life_halt]
        exact Life.halt_of_accounts hiterate
    · -- A stop was requested: the machine still runs, and halts without an error.
      rw [if_neg hgo] at hfinish
      cases hfinish
      rw [Rig.life_halt, h]
      rfl

end Loop

/-! ## Obstacles -/

section

variable {τ : Type} [HasRates τ]

/-- What ends a run before its loop. -/
def Machine.obstacle (m : Machine τ) : Option Failure :=
  match m.status, m.refusal with
  | .halted, _ => some (.fault (.halted .work))
  | .booting, some e => some e
  | _, _ => if m.config.hasRates then none else some .rateTooLarge

theorem Machine.obstacle_of_running (m : Machine τ) {g : Bool} (h : m.life = .running g) :
    m.obstacle = if m.config.hasRates then none else some .rateTooLarge := by
  unfold obstacle
  rw [m.status_eq, h]
  rfl

theorem Machine.obstacle_of_refusal (m : Machine τ) {e : Failure} (h : m.life = .booting)
    (hr : m.refusal = some e) : m.obstacle = some e := by
  unfold obstacle
  rw [m.status_eq, h, hr]
  rfl

theorem Machine.obstacle_of_accepted (m : Machine τ) (h : m.life = .booting)
    (hr : m.refusal = none) :
    m.obstacle = if m.config.hasRates then none else some .rateTooLarge := by
  unfold obstacle
  rw [m.status_eq, h, hr]
  rfl

variable {ω : Type} [OfNat τ 0] [OfNat τ 1] [OfNat τ 4] [Add τ] [Sub τ] [Mul τ] [Div τ]
  [LE τ] [DecidableLE τ] (host : Host ω τ) (s : Rig ω τ)

/-- A run without an obstacle is the loop of a running machine, which goes on if it has just
started; with an obstacle a run fails and does not halt the machine. -/
theorem Rig.run_cases (hlive : s.machine.status ≠ .halted) :
    (∃ (t : Rig ω τ) (g : Bool), s.machine.obstacle = none ∧ t.machine.life = .running g ∧
      (s.machine.life = .booting ∧ g = true ∨ s.machine.life = .running g) ∧
      ∀ fuel, s.run host fuel = (t.enterLoop host).finish host fuel) ∨
    ∃ (t : Rig ω τ) (e : Failure), s.machine.obstacle = some e ∧ t.machine.status ≠ .halted ∧
      ∀ fuel, s.run host fuel = some (t, some e) := by
  rcases s.machine.life_of_not_halted hlive with hl | ⟨g, hl⟩
  · cases hr : s.machine.refusal with
    | some e =>
      have hready := (s.ready_of_booting host hl).trans (s.boot_of_refusal host hlive hr)
      exact .inr ⟨s, e, s.machine.obstacle_of_refusal hl hr, hlive, fun fuel =>
        s.run_of_not_ready host fuel hready⟩
    | none =>
      have hobstacle := s.machine.obstacle_of_accepted hl hr
      obtain ⟨journal, hboot⟩ := s.boot_of_accepted host hlive hr
      by_cases hrates : s.machine.config.hasRates
      · rw [if_pos hrates] at hobstacle hboot
        have hready := (s.ready_of_booting host hl).trans hboot
        exact .inl ⟨_, true, hobstacle, rfl, .inl ⟨hl, rfl⟩, fun fuel =>
          (s.run_of_ready host fuel hready).trans (if_pos hrates)⟩
      · rw [if_neg hrates] at hobstacle hboot
        have hready := (s.ready_of_booting host hl).trans hboot
        exact .inr ⟨_, _, hobstacle, Status.noConfusion, fun fuel =>
          s.run_of_not_ready host fuel hready⟩
  · have hobstacle := s.machine.obstacle_of_running hl
    have hready := s.ready_of_running host hl
    by_cases hrates : s.machine.config.hasRates
    · rw [if_pos hrates] at hobstacle
      exact .inl ⟨s, g, hobstacle, hl, .inr hl, fun fuel =>
        (s.run_of_ready host fuel hready).trans (if_pos hrates)⟩
    · rw [if_neg hrates] at hobstacle
      exact .inr ⟨s, _, hobstacle, hlive, fun fuel =>
        (s.run_of_ready host fuel hready).trans (if_neg hrates)⟩

end

/-! ## The command line -/

/-- The standard rates have periods. -/
theorem Config.standard_hasRates : Config.standard.hasRates = true := by
  decide +kernel

/-- A machine of the command line refuses to start only if its program does not fit. -/
theorem Machine.refusal_standard (program : List UInt8) :
    (new program Config.standard .info).refusal =
      if Memory.programLimit < program.length then some (.fault (.programTooLarge program.length))
      else none := by
  have hseed : Random.isSeed Config.standard.seed = true := by decide
  exact if_pos hseed

/-- The same is its only obstacle. -/
theorem Machine.obstacle_standard (program : List UInt8) :
    (new program Config.standard .info).obstacle =
      if Memory.programLimit < program.length then some (.fault (.programTooLarge program.length))
      else none := by
  have hr := refusal_standard program
  by_cases hsize : Memory.programLimit < program.length
  · rw [if_pos hsize] at hr ⊢
    exact obstacle_of_refusal _ rfl hr
  · rw [if_neg hsize] at hr ⊢
    exact (obstacle_of_accepted _ rfl hr).trans (if_pos Config.standard_hasRates)

namespace CommandLine

/-- The exit code of a program that could be read tells whether its machine recorded an error. -/
theorem ending_of_run (read : String → Except FileError (List UInt8))
    (present : Machine Number → Machine Number) (now : Number) {arguments : List String}
    {file : Option String} {program : List UInt8} {title : String}
    (hrequest : Request.ofArguments arguments = .run file)
    (hprogram : fetchProgram read file = .ok (program, title)) :
    (Session.ofArguments read present now arguments).ending =
      .exit (if (present (Machine.new program Config.standard .info)).error?.isSome then 1
        else 0) := by
  unfold Session.ofArguments
  rw [hrequest]
  simp only [hprogram]

end CommandLine

/-! ## Where a failure is recorded -/

/-- The machine has halted, and its error is the failure that its run ended with, or none. -/
structure Rig.Records {ω τ : Type} (t : Rig ω τ) (failure : Option Failure) : Prop where
  halted : t.machine.status = .halted
  stopped : t.machine.goesOn = false
  error : t.machine.error? = failure

theorem Rig.records_of_life {ω τ : Type} {t : Rig ω τ} {failure : Option Failure}
    (h : t.machine.life = .halted failure) : t.Records failure where
  halted := by rw [t.machine.status_eq, h]; rfl
  stopped := by rw [t.machine.goesOn_eq, h]; rfl
  error := by rw [t.machine.error?_eq, h]; rfl

/-- Only a halted machine has an error. -/
theorem Machine.error?_of_not_halted {τ : Type} (m : Machine τ) (h : m.status ≠ .halted) :
    m.error? = none := by
  rw [error?_eq]
  rcases m.life_of_not_halted h with hl | ⟨g, hl⟩
  · rw [hl]
    rfl
  · rw [hl]
    rfl

open CommandLine in
/-- **A run records its failure exactly if it meets no obstacle before its loop.** With an obstacle
the failure is lost: the machine is not halted and has no error. So the command line, whose window
runs the machine on a thread, ends with code 1 exactly for a run that failed on a program that
fits. -/
theorem Rig.run_records_failure {ω : Type} (host : Host ω Number)
    (hobs : host.observer.NeverHalts) (fuel : Nat) (s t : Rig ω Number)
    (failure : Option Failure) (hlive : s.machine.status ≠ .halted)
    (hrun : s.run host fuel = some (t, failure)) :
    (t.Records failure ↔ s.machine.obstacle = none) ∧
    (∀ e, s.machine.obstacle = some e →
      failure = some e ∧ t.machine.status ≠ .halted ∧ t.machine.error? = none) ∧
    s.runDetached host fuel = some t ∧
    ∀ read present now arguments file program title,
      Request.ofArguments arguments = .run file →
      fetchProgram read file = .ok (program, title) →
      s.machine = Machine.new program Config.standard .info →
      present s.machine = t.machine →
      (Session.ofArguments read present now arguments).ending =
        .exit (if failure.isSome ∧ program.length ≤ Memory.programLimit then 1 else 0) := by
  have hdetached : s.runDetached host fuel = some t := by
    unfold runDetached
    rw [hrun]
    rfl
  rcases s.run_cases host hlive with
    ⟨u, g, hobstacle, hu, -, hloop⟩ | ⟨u, e, hobstacle, hu, hfail⟩
  · have hrecords : t.Records failure :=
      records_of_life (Loop.finish_recorded hobs fuel _ hu ((hloop fuel).symm.trans hrun))
    refine ⟨iff_of_true hrecords hobstacle, ?_, hdetached, ?_⟩
    · intro e he
      rw [hobstacle] at he
      cases he
    · intro read present now arguments file program title hrequest hprogram hnew hpresent
      have hfits : ¬ Memory.programLimit < program.length := by
        intro hsize
        rw [hnew, Machine.obstacle_standard, if_pos hsize] at hobstacle
        cases hobstacle
      rw [ending_of_run read present now hrequest hprogram, ← hnew, hpresent, hrecords.error]
      simp [Nat.not_lt.mp hfits]
  · have hends := Option.some.inj ((hfail fuel).symm.trans hrun)
    obtain ⟨rfl, rfl⟩ := Prod.mk.inj hends
    have herror := u.machine.error?_of_not_halted hu
    refine ⟨iff_of_false (fun h => hu h.halted) (by simp [hobstacle]), ?_, hdetached, ?_⟩
    · intro e' he'
      rw [hobstacle] at he'
      exact ⟨he', hu, herror⟩
    · intro read present now arguments file program title hrequest hprogram hnew hpresent
      have hsize : Memory.programLimit < program.length := by
        refine Nat.lt_of_not_le fun hfits => ?_
        rw [hnew, Machine.obstacle_standard, if_neg (Nat.not_lt.mpr hfits)] at hobstacle
        cases hobstacle
      rw [ending_of_run read present now hrequest hprogram, ← hnew, hpresent, herror]
      simp [Nat.not_le.mpr hsize]

/-- A machine as the command line makes it, in an empty world. -/
def Rig.ofProgram (program : List UInt8) : Rig Unit Number :=
  ⟨Machine.new program Config.standard .info, ()⟩

/-- A host on which everything fails that can fail. -/
def Host.failing (e : Failure) : Host Unit Number where
  clock w := (0, w)
  stamp _ := 0
  pressedKeys _ := []
  draw _ w := (w, some e)
  sleep _ w := (w, .error e)
  observer _ _ _ := ([], some e)

theorem Host.failing_neverHalts (e : Failure) : (Host.failing e).observer.NeverHalts :=
  fun _ _ _ _ h => by cases h

namespace Loop

variable (e : Failure) (now : Number) (l : Loop Unit Number)

theorem fireInstruction_failing {g : Bool} (h : l.rig.machine.life = .running g) :
    (∃ f, (l.fireInstruction (Host.failing e) now).2.2 = some f) ∨
      l.fireInstruction (Host.failing e) now = (l, false, none) := by
  unfold fireInstruction
  by_cases hdue : Pace.isDue l.lastInstruction l.rig.machine.config.instructionPeriod now
  · left
    rw [if_pos hdue]
    rcases l.rig.cycle_cases (Host.failing e) h with ⟨i, t, -, -, hcycle⟩ | ⟨f, hf, -⟩
    · rw [hcycle]
      exact ⟨e, rfl⟩
    · exact ⟨_, hf⟩
  · right
    rw [if_neg hdue]

theorem fireTimer_failing {g : Bool} (h : l.rig.machine.life = .running g) :
    (∃ f, (l.fireTimer (Host.failing e) now).2.2 = some f) ∨
      l.fireTimer (Host.failing e) now = (l, false, none) := by
  unfold fireTimer
  by_cases hdue : l.rig.machine.goesOn && Pace.isDue l.lastTimer
      l.rig.machine.config.timerPeriod now
  · left
    obtain ⟨state, -, htick⟩ := l.rig.tick_of_ready (Host.failing e) (l.rig.ready_of_running _ h)
    rw [if_pos hdue, htick]
    exact ⟨e, rfl⟩
  · right
    rw [if_neg hdue]

/-- Where everything fails, the first iteration does, whatever is due in it. -/
theorem iterate_failing {g : Bool} (h : l.rig.machine.life = .running g) :
    ∃ l' f, l.iterate (Host.failing e) = (l', some f) := by
  have hread : l.iterate (Host.failing e) = l.iterateAt (Host.failing e) 0 := rfl
  rw [hread]
  unfold iterateAt
  rcases l.fireInstruction_failing e 0 h with ⟨f, hf⟩ | hinstruction
  · rcases hfire : l.fireInstruction (Host.failing e) 0 with ⟨l', fired, _ | f'⟩
    · rw [hfire] at hf
      cases hf
    · exact ⟨l', f', rfl⟩
  · rcases l.fireTimer_failing e 0 h with ⟨f, hf⟩ | htimer
    · rcases hfire : l.fireTimer (Host.failing e) 0 with ⟨l', fired, _ | f'⟩
      · rw [hfire] at hf
        cases hf
      · exact ⟨l', f', by simp only [hinstruction, hfire]⟩
    · exact ⟨l, e, by simp only [hinstruction, htimer]; rfl⟩

end Loop

/-- Where everything fails, a machine that can start fails in its first iteration. -/
theorem Rig.run_failing (e : Failure) (s : Rig Unit Number) (hlife : s.machine.life = .booting)
    (hlive : s.machine.status ≠ .halted) (hobstacle : s.machine.obstacle = none) :
    ∃ t f, s.run (Host.failing e) 1 = some (t, some f) := by
  rcases s.run_cases (Host.failing e) hlive with
    ⟨t, g, -, ht, hstart | hstart, hloop⟩ | ⟨t, e', hsome, -, -⟩
  · obtain ⟨-, rfl⟩ := hstart
    obtain ⟨l', f, hiterate⟩ := (t.enterLoop (Host.failing e)).iterate_failing e ht
    refine ⟨l'.rig.halt (Host.failing e) (some f), f, ?_⟩
    have hgo : (t.enterLoop (Host.failing e)).rig.machine.goesOn = true :=
      t.machine.goesOn_of_running ht
    rw [hloop]
    unfold Loop.finish
    rw [if_pos hgo, hiterate]
  · rw [hlife] at hstart
    cases hstart
  · rw [hobstacle] at hsome
    cases hsome

open CommandLine in
/-- The bundled program fails on such a host, its failure is recorded, and the command line ends
with code 1. -/
theorem Rig.bundled_failure_recorded :
    ∃ t f, (ofProgram bundledProgram).run (Host.failing .rateTooLarge) 1 = some (t, some f) ∧
      t.Records (some f) ∧
      (Session.ofArguments (fun _ => .ok []) (fun _ => t.machine) 0 []).ending = .exit 1 := by
  have hobstacle : (ofProgram bundledProgram).machine.obstacle = none :=
    (Machine.obstacle_standard bundledProgram).trans (if_neg (by decide))
  have hlive : (ofProgram bundledProgram).machine.status ≠ .halted := Status.noConfusion
  obtain ⟨t, f, hrun⟩ := run_failing .rateTooLarge _ rfl hlive hobstacle
  obtain ⟨hrecords, -, -, hcode⟩ := run_records_failure (Host.failing .rateTooLarge)
    (Host.failing_neverHalts .rateTooLarge) 1 (ofProgram bundledProgram) t (some f) hlive hrun
  refine ⟨t, f, hrun, hrecords.mpr hobstacle, ?_⟩
  exact hcode (fun _ => .ok []) (fun _ => t.machine) 0 [] none bundledProgram
    "bundled default ROM" rfl rfl rfl rfl

open CommandLine in
/-- A program that is one byte too long: its run fails, but nothing is recorded, and the command
line ends with code 0. -/
theorem Rig.large_program_failure_lost :
    (ofProgram (List.replicate 3585 0)).run (Host.failing .rateTooLarge) 1 =
      some (ofProgram (List.replicate 3585 0), some (.fault (.programTooLarge 3585))) ∧
    (ofProgram (List.replicate 3585 0)).machine.status = .booting ∧
    (ofProgram (List.replicate 3585 0)).machine.error? = none ∧
    (Session.ofArguments (fun _ => .ok (List.replicate 3585 0))
      (fun _ => (ofProgram (List.replicate 3585 0)).machine) 0 ["large"]).ending = .exit 0 := by
  have hrefusal : (ofProgram (List.replicate 3585 0)).machine.refusal =
      some (.fault (.programTooLarge 3585)) := by
    refine (Machine.refusal_standard _).trans ?_
    rw [List.length_replicate]
    rfl
  have hready := boot_of_refusal (Host.failing .rateTooLarge) (ofProgram (List.replicate 3585 0))
    Status.noConfusion hrefusal
  have hprogram : fetchProgram (fun _ => .ok (List.replicate 3585 0)) (some "large") =
      .ok (List.replicate 3585 0, "large") := rfl
  exact ⟨run_of_not_ready _ 1 _ hready, rfl, rfl, ending_of_run _ _ 0 rfl hprogram⟩

end Chip8
