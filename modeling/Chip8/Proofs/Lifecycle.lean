/-
Chip8.Proofs.Lifecycle — the life of a machine, call by call.

`Life` is the phase of a machine without the state and the time that it
holds. Every call changes it in a way that can be told without them:
reports, key samples and state changes keep it (`life_record`,
`life_sample`, `life_commit`), the actions of an observer are a fold over
it (`life_act`, `life_notify`), and `Rig.halt` ends it.

`boot_of_refusal` and `boot_of_accepted` tell what a boot does, with
`Machine.refusal` as the reason for which a machine does not start.
`cycle_of_ready` and `tick_of_ready` do so for a cycle and a tick, and
`cycle_of_fetches` in terms of `Rig.fetches?`, the state that a cycle
fetches its instruction from. `Loop.Iterates` lists the ways in which an
iteration of the loop can go; `run_of_ready` leads from a run to its loop,
and `run_halted_or_ready` says that a loop ends with the machine halted.
-/
import Chip8.Machine.Run
import Chip8.Proofs.Interpreter

namespace Chip8

/-- The phase of a machine without the state and the time that it holds. -/
inductive Life where
  | booting
  | running (goesOn : Bool)
  | halted (error : Option Failure)
deriving DecidableEq, Repr

namespace Life

/-- The status that goes with a life. -/
def status : Life → Status
  | .booting => .booting
  | .running _ => .running
  | .halted _ => .halted

/-- Whether the machine runs and no stop was requested. -/
def goesOn : Life → Bool
  | .running goesOn => goesOn
  | _ => false

/-- The error that ended the machine. -/
def error? : Life → Option Failure
  | .halted error => error
  | _ => none

/-- A stop request reaches a running machine only. -/
def stop : Life → Life
  | .running _ => .running false
  | l => l

/-- A halted machine stays as it is. -/
def halt (error : Option Failure) : Life → Life
  | .halted earlier => .halted earlier
  | _ => .halted error

/-- What an action of an observer does to a life. -/
def act {ω : Type} (l : Life) : Action ω → Life
  | .affect _ => l
  | .stop => l.stop
  | .halt error => l.halt error
  | .trace => l

end Life

/-! ## Machines -/

namespace Machine

variable {τ : Type} (m : Machine τ)

/-- The life of a machine. -/
def life : Life :=
  match m.phase with
  | .booting => .booting
  | .running _ _ goesOn => .running goesOn
  | .halted _ error => .halted error

theorem life_congr {m m' : Machine τ} (h : m.phase = m'.phase) : m.life = m'.life := by
  unfold life
  rw [h]

theorem state?_congr {m m' : Machine τ} (h : m.phase = m'.phase) : m.state? = m'.state? := by
  unfold state?
  rw [h]

theorem status_eq : m.status = m.life.status := by
  unfold status life
  cases m.phase <;> rfl

theorem goesOn_eq : m.goesOn = m.life.goesOn := by
  unfold goesOn life
  cases m.phase <;> rfl

theorem error?_eq : m.error? = m.life.error? := by
  unfold error? life
  cases m.phase <;> rfl

theorem goesOn_of_running {g : Bool} (h : m.life = .running g) : m.goesOn = g := by
  rw [goesOn_eq, h]
  rfl

/-- A machine that goes on runs. -/
theorem running_of_goesOn (h : m.goesOn = true) : m.life = .running true := by
  rw [goesOn_eq] at h
  cases hl : m.life with
  | running g =>
    rw [hl] at h
    exact congrArg Life.running h
  | booting | halted error =>
    rw [hl] at h
    cases h

theorem status_of_booting (h : m.life = .booting) : m.status = .booting := by
  rw [status_eq, h]
  rfl

theorem status_of_running {g : Bool} (h : m.life = .running g) : m.status = .running := by
  rw [status_eq, h]
  rfl

theorem life_of_booting (h : m.status = .booting) : m.life = .booting := by
  rw [status_eq] at h
  cases hl : m.life with
  | booting => rfl
  | running g =>
    rw [hl] at h
    cases h
  | halted error =>
    rw [hl] at h
    cases h

/-- A machine that is not halted is booting or running. -/
theorem life_of_not_halted (h : m.status ≠ .halted) :
    m.life = .booting ∨ ∃ g, m.life = .running g := by
  rw [status_eq] at h
  cases hl : m.life with
  | booting => exact .inl rfl
  | running g => exact .inr ⟨g, rfl⟩
  | halted error =>
    rw [hl] at h
    exact absurd rfl h

theorem life_of_running (h : m.status = .running) : ∃ g, m.life = .running g := by
  rw [status_eq] at h
  cases hl : m.life with
  | running g => exact ⟨g, rfl⟩
  | booting | halted error =>
    rw [hl] at h
    cases h

theorem life_of_halted (h : m.status = .halted) : ∃ error, m.life = .halted error := by
  rw [status_eq] at h
  cases hl : m.life with
  | halted error => exact ⟨error, rfl⟩
  | booting | running g =>
    rw [hl] at h
    cases h

theorem life_of_phase {state : State} {startedAt : τ} {g : Bool}
    (h : m.phase = .running state startedAt g) : m.life = .running g := by
  unfold life
  rw [h]

/-- A running machine has a state and a time at which it started. -/
theorem phase_of_running {g : Bool} (h : m.life = .running g) :
    ∃ state startedAt, m.phase = .running state startedAt g := by
  unfold life at h
  cases hp : m.phase with
  | booting => simp [hp] at h
  | running state startedAt goesOn =>
    have hg : goesOn = g := by simpa [hp] using h
    exact ⟨state, startedAt, by rw [hg]⟩
  | halted last error => simp [hp] at h

/-- A halted machine has the error in its phase. -/
theorem phase_of_halted {error : Option Failure} (h : m.life = .halted error) :
    ∃ last, m.phase = .halted last error := by
  unfold life at h
  cases hp : m.phase with
  | booting => simp [hp] at h
  | running state startedAt goesOn => simp [hp] at h
  | halted last earlier =>
    have he : earlier = error := by simpa [hp] using h
    exact ⟨last, by rw [he]⟩

theorem phase_of_booting (h : m.life = .booting) : m.phase = .booting := by
  unfold life at h
  cases hp : m.phase with
  | booting => rfl
  | running state startedAt goesOn => simp [hp] at h
  | halted last error => simp [hp] at h

/-- A machine that has not started has no state. -/
theorem state?_of_booting (h : m.status = .booting) : m.state? = none := by
  unfold state?
  rw [m.phase_of_booting (m.life_of_booting h)]

theorem mapState_frame (f : State → State) :
    ∃ phase, m.mapState f = { m with phase := phase } := by
  unfold mapState
  cases m.phase with
  | booting => exact ⟨m.phase, rfl⟩
  | running state startedAt goesOn => exact ⟨_, rfl⟩
  | halted last error => exact ⟨_, rfl⟩

theorem sample_frame (codes : List Int) :
    ∃ phase, m.sample codes = { m with phase := phase, sampled := Keypad.ofKeys codes } := by
  unfold sample
  by_cases h : Keypad.ofKeys codes = m.sampled
  · rw [if_pos h, h]
    exact ⟨m.phase, rfl⟩
  · obtain ⟨phase, hphase⟩ := m.mapState_frame fun s => { s with keypad := Keypad.ofKeys codes }
    rw [if_neg h, hphase]
    exact ⟨phase, rfl⟩

theorem stop_frame : ∃ phase, m.stop = { m with phase := phase } := by
  unfold stop
  cases m.phase with
  | running state startedAt goesOn => exact ⟨_, rfl⟩
  | booting | halted last error => exact ⟨m.phase, rfl⟩

@[simp] theorem life_mapState (f : State → State) : (m.mapState f).life = m.life := by
  unfold mapState
  cases h : m.phase <;> simp [life, h]

@[simp] theorem state?_mapState (f : State → State) : (m.mapState f).state? = m.state?.map f := by
  unfold mapState
  cases h : m.phase <;> simp [state?, h]

@[simp] theorem state?_stop : m.stop.state? = m.state? := by
  unfold stop
  cases h : m.phase <;> simp [state?, h]

/-- A sample replaces the keypad of the state, unless the keys are those sampled last. -/
theorem state?_sample (keys : List Int) :
    (m.sample keys).state? = m.state?.map fun s =>
      if Keypad.ofKeys keys = m.sampled then s else s.press keys := by
  unfold sample
  by_cases h : Keypad.ofKeys keys = m.sampled
  · simp [h]
  · rw [if_neg h]
    simp only [if_neg h]
    rw [← m.state?_mapState]
    exact state?_congr rfl

@[simp] theorem life_sample (keys : List Int) : (m.sample keys).life = m.life := by
  unfold sample
  by_cases h : Keypad.ofKeys keys = m.sampled
  · rw [if_pos h]
  · rw [if_neg h, ← m.life_mapState fun s => { s with keypad := Keypad.ofKeys keys }]
    exact life_congr rfl

@[simp] theorem life_commit (i : Instruction) (after : State) :
    (m.commit i after).life = m.life := m.life_mapState _

@[simp] theorem state?_commit (i : Instruction) (after : State) :
    (m.commit i after).state? = m.state?.map fun _ => after := m.state?_mapState _

@[simp] theorem life_stop : m.stop.life = m.life.stop := by
  unfold stop
  cases h : m.phase <;> simp [life, h, Life.stop]

/-- A stop request leaves the status as it is. -/
@[simp] theorem status_stop : m.stop.status = m.status := by
  rw [status_eq, status_eq, life_stop]
  cases m.life <;> rfl

@[simp] theorem status_mapState (f : State → State) : (m.mapState f).status = m.status := by
  rw [status_eq, status_eq, life_mapState]

@[simp] theorem status_sample (keys : List Int) : (m.sample keys).status = m.status := by
  rw [status_eq, status_eq, life_sample]

/-- A running machine has a state. -/
theorem state?_of_running {g : Bool} (h : m.life = .running g) :
    ∃ state, m.state? = some state := by
  obtain ⟨state, startedAt, hp⟩ := m.phase_of_running h
  exact ⟨state, by unfold state?; rw [hp]⟩

/-- Why a machine that has not started cannot start: its seed, then its program. -/
def refusal : Option Failure :=
  if Random.isSeed m.config.seed then
    if Memory.programLimit < m.program.length then
      some (.fault (.programTooLarge m.program.length))
    else none
  else some (.seedOutOfRange m.config.seed)

theorem refusal_eq_none_iff :
    m.refusal = none ↔
      Random.isSeed m.config.seed = true ∧ ¬ Memory.programLimit < m.program.length := by
  unfold refusal
  by_cases hseed : Random.isSeed m.config.seed
  · by_cases hsize : Memory.programLimit < m.program.length
    · simp [hseed, hsize]
    · simp [hseed, hsize]
  · simp [hseed]

theorem refusal_eq_some_iff (e : Failure) :
    m.refusal = some e ↔
      (¬ Random.isSeed m.config.seed = true ∧ e = .seedOutOfRange m.config.seed) ∨
      (Random.isSeed m.config.seed = true ∧ Memory.programLimit < m.program.length ∧
        e = .fault (.programTooLarge m.program.length)) := by
  unfold refusal
  by_cases hseed : Random.isSeed m.config.seed
  · by_cases hsize : Memory.programLimit < m.program.length
    · simp [hseed, hsize, eq_comm]
    · simp [hseed, hsize]
  · simp [hseed, eq_comm]

theorem refusal_congr {m m' : Machine τ} (hprogram : m.program = m'.program)
    (hconfig : m.config = m'.config) : m.refusal = m'.refusal := by
  unfold refusal
  rw [hprogram, hconfig]

@[simp] theorem refusal_mapState (f : State → State) : (m.mapState f).refusal = m.refusal := by
  obtain ⟨phase, h⟩ := m.mapState_frame f
  rw [h]
  exact refusal_congr rfl rfl

@[simp] theorem refusal_stop : m.stop.refusal = m.refusal := by
  obtain ⟨phase, h⟩ := m.stop_frame
  rw [h]
  exact refusal_congr rfl rfl

@[simp] theorem refusal_sample (keys : List Int) : (m.sample keys).refusal = m.refusal := by
  obtain ⟨phase, h⟩ := m.sample_frame keys
  rw [h]
  exact refusal_congr rfl rfl

/-- A machine that has just started, at the given time. -/
def started (startedAt : τ) : Machine τ :=
  { m with phase := .running (State.start m.config.seed m.program) startedAt true }

end Machine

/-! ## Reports and clocks -/

namespace Rig

section

variable {ω τ : Type} (host : Host ω τ) (s : Rig ω τ)

/-- A report changes nothing but the journal. -/
theorem record_eq (r : Report τ) :
    ∃ journal, s.record host r = { s with machine := { s.machine with journal := journal } } := by
  unfold record
  by_cases h : s.machine.threshold.rank ≤ r.level.rank
  · rw [if_pos h]
    exact ⟨_, rfl⟩
  · rw [if_neg h]
    exact ⟨s.machine.journal, rfl⟩

@[simp] theorem life_record (r : Report τ) :
    (s.record host r).machine.life = s.machine.life := by
  obtain ⟨journal, h⟩ := s.record_eq host r
  rw [h]
  rfl

/-- The report of an end changes nothing but the journal. -/
theorem reportEnd_eq (error : Option Failure) (elapsed : τ) :
    ∃ journal, s.reportEnd host error elapsed =
      { s with machine := { s.machine with journal := journal } } := by
  cases error with
  | none => exact s.record_eq host _
  | some e =>
    obtain ⟨_, h⟩ := s.record_eq host (.crashed e.kind e.message s.machine.state?)
    simp only [reportEnd, h]
    exact record_eq host _ _

end

/-! ## The end of a machine -/

section

variable {ω τ : Type} [OfNat τ 0] [Sub τ] (host : Host ω τ) (s : Rig ω τ)

theorem halt_of_halted {earlier : Option Failure} (error : Option Failure)
    (h : s.machine.life = .halted earlier) : s.halt host error = s := by
  obtain ⟨last, hp⟩ := s.machine.phase_of_halted h
  unfold halt
  rw [hp]

/-- A running machine that halts keeps its state and its counts, and the clock is read once. -/
theorem halt_of_running {g : Bool} (error : Option Failure) (h : s.machine.life = .running g) :
    ∃ journal, s.halt host error =
      ⟨{ s.machine with phase := .halted s.machine.state? error, journal := journal },
        (host.clock s.world).2⟩ := by
  obtain ⟨state, startedAt, hp⟩ := s.machine.phase_of_running h
  have hstate : s.machine.state? = some state := by
    unfold Machine.state?
    rw [hp]
  unfold halt
  rw [hp, hstate]
  exact reportEnd_eq host _ _ _

/-- A machine that halts before it started has no state. -/
theorem halt_of_booting (error : Option Failure) (h : s.machine.life = .booting) :
    ∃ journal, s.halt host error =
      ⟨{ s.machine with phase := .halted none error, journal := journal }, s.world⟩ := by
  unfold halt
  rw [s.machine.phase_of_booting h]
  exact reportEnd_eq host _ _ _

/-- Halting ends a life, unless it has ended before. -/
@[simp] theorem life_halt (error : Option Failure) :
    (s.halt host error).machine.life = s.machine.life.halt error := by
  cases h : s.machine.life with
  | booting =>
    obtain ⟨journal, hs⟩ := s.halt_of_booting host error h
    rw [hs]
    rfl
  | running g =>
    obtain ⟨journal, hs⟩ := s.halt_of_running host error h
    rw [hs]
    rfl
  | halted earlier =>
    rw [s.halt_of_halted host error h, h]
    rfl

theorem status_halt (error : Option Failure) : (s.halt host error).machine.status = .halted := by
  rw [Machine.status_eq, life_halt]
  cases s.machine.life <;> rfl

/-! ## Observers -/

@[simp] theorem life_act (a : Action ω) : (s.act host a).machine.life = s.machine.life.act a := by
  cases a with
  | affect f => rfl
  | stop => exact s.machine.life_stop
  | halt error => exact s.life_halt host error
  | trace =>
    unfold act
    cases s.machine.lastStep? with
    | none => rfl
    | some report => exact s.life_record host report

/-- An observer acts on the life of a machine through its actions alone. -/
theorem life_foldl_act (actions : List (Action ω)) :
    (actions.foldl (act host) s).machine.life = actions.foldl Life.act s.machine.life := by
  induction actions generalizing s with
  | nil => rfl
  | cons a rest ih => rw [List.foldl_cons, List.foldl_cons, ih, life_act]

/-- An action of an observer reaches the phase and the journal of a machine, and nothing else of
it. -/
theorem act_frame (a : Action ω) :
    ∃ phase journal,
      (s.act host a).machine = { s.machine with phase := phase, journal := journal } := by
  cases a with
  | affect f => exact ⟨_, _, rfl⟩
  | stop =>
    obtain ⟨phase, hstop⟩ := s.machine.stop_frame
    exact ⟨phase, _, hstop⟩
  | halt error =>
    cases h : s.machine.life with
    | booting =>
      obtain ⟨journal, hs⟩ := s.halt_of_booting host error h
      exact ⟨_, journal, congrArg Rig.machine hs⟩
    | running g =>
      obtain ⟨journal, hs⟩ := s.halt_of_running host error h
      exact ⟨_, journal, congrArg Rig.machine hs⟩
    | halted earlier => exact ⟨_, _, congrArg Rig.machine (s.halt_of_halted host error h)⟩
  | trace =>
    unfold act
    cases s.machine.lastStep? with
    | none => exact ⟨_, _, rfl⟩
    | some report =>
      obtain ⟨journal, hs⟩ := s.record_eq host report
      exact ⟨_, journal, congrArg Rig.machine hs⟩

/-- What every action of the observer keeps, telling it of an instruction keeps. -/
theorem notify_preserves {P : Rig ω τ → Prop} (i : Instruction) (h : P s)
    (hact : ∀ u, ∀ a ∈ (host.observer s.machine i s.world).1, P u → P (u.act host a)) :
    P (s.notify host i).1 :=
  List.foldlRecOn _ _ h fun u hu a ha => hact u a ha hu

theorem notify_frame (i : Instruction) :
    ∃ phase journal,
      (s.notify host i).1.machine = { s.machine with phase := phase, journal := journal } := by
  refine s.notify_preserves host (P := fun u => ∃ phase journal,
    u.machine = { s.machine with phase := phase, journal := journal }) i ⟨_, _, rfl⟩ ?_
  rintro u a - ⟨phase, journal, hu⟩
  obtain ⟨phase', journal', hact⟩ := u.act_frame host a
  rw [hu] at hact
  exact ⟨phase', journal', hact⟩

/-- An observer that is told of an instruction acts on the life of the machine. -/
theorem life_notify (i : Instruction) :
    (s.notify host i).1.machine.life =
      (host.observer s.machine i s.world).1.foldl Life.act s.machine.life :=
  s.life_foldl_act host _

end

/-! ## The start of a machine -/

section

variable {ω τ : Type} [HasRates τ] (host : Host ω τ) (s : Rig ω τ)

/-- A machine that cannot start stays as it is. -/
theorem boot_of_refusal {e : Failure} (h : s.machine.status ≠ .halted)
    (hr : s.machine.refusal = some e) : s.boot host = (s, some e) := by
  unfold boot
  cases hp : s.machine.phase with
  | halted last error => exact absurd (by unfold Machine.status; rw [hp]) h
  | booting | running state startedAt goesOn =>
    rcases (s.machine.refusal_eq_some_iff e).mp hr with ⟨hseed, rfl⟩ | ⟨hseed, hsize, rfl⟩
    · simp only [if_neg hseed]
    · simp only [if_pos hseed, State.loadProgram, if_pos hsize]

/-- A machine that can start is at the start of its program afterwards and goes on, and reports
its rates. The boot fails all the same if they cannot be reported. -/
theorem boot_eq_of_accepted (h : s.machine.status ≠ .halted) (hr : s.machine.refusal = none) :
    s.boot host =
      if s.machine.config.hasRates then
        (record host
          (.booted s.machine.program.length s.machine.config.instructionRate
            s.machine.config.timerRate)
          ⟨s.machine.started (host.clock s.world).1, (host.clock s.world).2⟩, none)
      else
        (⟨s.machine.started (host.clock s.world).1, (host.clock s.world).2⟩,
          some .rateTooLarge) := by
  obtain ⟨hseed, hsize⟩ := s.machine.refusal_eq_none_iff.mp hr
  have hload := State.loadProgram_initial s.machine.config.seed hsize
  unfold boot
  cases hp : s.machine.phase with
  | halted last error => exact absurd (by unfold Machine.status; rw [hp]) h
  | booting | running state startedAt goesOn =>
    simp only [if_pos hseed, hload, readClock]
    rfl

/-- Where a machine is that could start, whatever it has reported. -/
theorem boot_of_accepted (h : s.machine.status ≠ .halted) (hr : s.machine.refusal = none) :
    ∃ journal, s.boot host =
      (⟨{ s.machine.started (host.clock s.world).1 with journal := journal },
          (host.clock s.world).2⟩,
        if s.machine.config.hasRates then none else some .rateTooLarge) := by
  rw [s.boot_eq_of_accepted host h hr]
  by_cases hrates : s.machine.config.hasRates
  · obtain ⟨journal, hrecord⟩ := record_eq host
      ⟨s.machine.started (host.clock s.world).1, (host.clock s.world).2⟩
      (.booted s.machine.program.length s.machine.config.instructionRate
        s.machine.config.timerRate)
    rw [if_pos hrates, if_pos hrates, hrecord]
    exact ⟨journal, rfl⟩
  · rw [if_neg hrates, if_neg hrates]
    exact ⟨s.machine.journal, rfl⟩

theorem boot_of_halted (h : s.machine.status = .halted) :
    s.boot host = (s, some (.fault (.halted .boot))) := by
  unfold Machine.status at h
  unfold boot
  cases hp : s.machine.phase with
  | halted last error => rfl
  | booting =>
    rw [hp] at h
    cases h
  | running state startedAt goesOn =>
    rw [hp] at h
    cases h

theorem ready_of_halted {error : Option Failure} (h : s.machine.life = .halted error) :
    s.ready host = (s, some (.fault (.halted .work))) := by
  obtain ⟨last, hp⟩ := s.machine.phase_of_halted h
  unfold ready
  rw [hp]

/-- A machine that runs does not boot again by itself. -/
theorem ready_of_running {g : Bool} (h : s.machine.life = .running g) :
    s.ready host = (s, none) := by
  obtain ⟨state, startedAt, hp⟩ := s.machine.phase_of_running h
  unfold ready
  rw [hp]

theorem ready_of_booting (h : s.machine.life = .booting) : s.ready host = s.boot host := by
  unfold ready
  rw [s.machine.phase_of_booting h]

/-- Whatever is ready runs. -/
theorem running_of_ready {t : Rig ω τ} (h : s.ready host = (t, none)) :
    ∃ g, t.machine.life = .running g := by
  cases hl : s.machine.life with
  | halted error =>
    rw [s.ready_of_halted host hl] at h
    cases h
  | running g =>
    rw [s.ready_of_running host hl] at h
    cases h
    exact ⟨g, hl⟩
  | booting =>
    have hlive : s.machine.status ≠ .halted := by
      rw [s.machine.status_eq, hl]
      decide
    rw [s.ready_of_booting host hl] at h
    cases hr : s.machine.refusal with
    | some e =>
      rw [s.boot_of_refusal host hlive hr] at h
      cases h
    | none =>
      obtain ⟨journal, hb⟩ := s.boot_of_accepted host hlive hr
      rw [hb] at h
      obtain rfl := congrArg Prod.fst h
      exact ⟨true, rfl⟩

end

/-! ## Cycles and ticks -/

section

variable {ω τ : Type} [HasRates τ] (host : Host ω τ) (s : Rig ω τ)

/-- What a cycle does on its way to the observer: the instruction that it executes, and the rig
that the observer sees then. -/
def observed? : Option (Instruction × Rig ω τ) :=
  match s.ready host with
  | (_, some _) => none
  | (s, none) =>
    let s := { s with machine := s.machine.sample (host.pressedKeys s.world) }
    match s.machine.state?.map State.step with
    | some (.ok (after, word)) =>
      some (⟨word⟩, { s with machine := s.machine.commit ⟨word⟩ after })
    | _ => none

/-- The codes that the adapter answers with in a cycle, and the state that the instruction is then
fetched from. -/
def fetches? : Option (List Int × State) :=
  match s.ready host with
  | (_, some _) => none
  | (u, none) =>
    (u.machine.sample (host.pressedKeys u.world)).state?.map fun state =>
      (host.pressedKeys u.world, state)

/-- Whatever is ready fetches. -/
theorem fetches?_of_ready {u : Rig ω τ} (h : s.ready host = (u, none)) :
    ∃ seen, (u.machine.sample (host.pressedKeys u.world)).state? = some seen ∧
      s.fetches? host = some (host.pressedKeys u.world, seen) := by
  obtain ⟨g, hg⟩ := s.running_of_ready host h
  obtain ⟨seen, hseen⟩ := Machine.state?_of_running
    (u.machine.sample (host.pressedKeys u.world)) (by rw [Machine.life_sample]; exact hg)
  refine ⟨seen, hseen, ?_⟩
  unfold fetches?
  rw [h]
  simp only [hseen, Option.map_some]

/-- What lies between a cycle and its fetch: the machine is ready and samples the keys. -/
theorem fetches?_eq_some {codes : List Int} {seen : State}
    (h : s.fetches? host = some (codes, seen)) :
    ∃ u, s.ready host = (u, none) ∧ codes = host.pressedKeys u.world ∧
      (u.machine.sample codes).state? = some seen := by
  unfold fetches? at h
  rcases hready : s.ready host with ⟨u, _ | e⟩
  · rw [hready] at h
    obtain ⟨state, hstate, heq⟩ := Option.map_eq_some_iff.mp h
    cases heq
    exact ⟨u, rfl, rfl, hstate⟩
  · rw [hready] at h
    cases h

/-- Only a machine that has not halted fetches. -/
theorem live_of_fetches {codes : List Int} {seen : State}
    (h : s.fetches? host = some (codes, seen)) : s.machine.status ≠ .halted := by
  obtain ⟨u, hready, -, -⟩ := s.fetches?_eq_some host h
  intro hhalted
  rw [Machine.status_eq] at hhalted
  cases hlife : s.machine.life with
  | halted error =>
    rw [s.ready_of_halted host hlife] at hready
    cases hready
  | booting | running g =>
    rw [hlife] at hhalted
    cases hhalted

/-- What lies between a cycle and its observer: the machine is ready, samples the keys, and its
state makes a step. -/
theorem observed?_eq_some {i : Instruction} {t : Rig ω τ} (h : s.observed? host = some (i, t)) :
    ∃ u state after word, s.ready host = (u, none) ∧
      (u.machine.sample (host.pressedKeys u.world)).state? = some state ∧
      state.step = .ok (after, word) ∧ i = ⟨word⟩ ∧
      t = { u with
        machine := (u.machine.sample (host.pressedKeys u.world)).commit ⟨word⟩ after } := by
  unfold observed? at h
  rcases hready : s.ready host with ⟨u, _ | failure⟩
  · simp only [hready] at h
    cases hstate : (u.machine.sample (host.pressedKeys u.world)).state? with
    | none => simp [hstate] at h
    | some state =>
      cases hstep : state.step with
      | error f => simp [hstate, hstep] at h
      | ok result =>
        obtain ⟨after, word⟩ := result
        simp only [hstate, Option.map_some, hstep, Option.some.injEq, Prod.mk.injEq] at h
        exact ⟨u, state, after, word, rfl, hstate, hstep, h.1.symm, h.2.symm⟩
  · simp only [hready] at h
    cases h

/-- The machine that an observer sees runs. -/
theorem running_of_observed {i : Instruction} {t : Rig ω τ} (h : s.observed? host = some (i, t)) :
    ∃ g, t.machine.life = .running g := by
  obtain ⟨u, state, after, word, hready, -, -, -, rfl⟩ := s.observed?_eq_some host h
  obtain ⟨g, hg⟩ := s.running_of_ready host hready
  exact ⟨g, by simpa using hg⟩

omit [HasRates τ] in
/-- What a tick does to a machine with a state. The adapter gets the picture and cannot reach the
machine. -/
theorem lower_eq {state : State} (h : s.machine.state? = some state) :
    s.lower host =
      (⟨{ s.machine.mapState State.tick with ticks := s.machine.ticks + 1 },
          (host.draw state.display s.world).1⟩,
        (host.draw state.display s.world).2) := by
  have hpicture : Machine.picture?
      { s.machine.mapState State.tick with ticks := s.machine.ticks + 1 } = some state.display := by
    show (s.machine.mapState State.tick).state?.map (·.display) = _
    rw [Machine.state?_mapState, h]
    rfl
  unfold lower
  simp only [hpicture]

/-- A tick lowers the timers as soon as the machine is ready. -/
theorem tick_eq_lower {t : Rig ω τ} (h : s.ready host = (t, none)) :
    s.tick host = t.lower host := by
  unfold tick
  rw [h]

/-- A tick lowers the timers, counts itself and hands over the picture of the machine. -/
theorem tick_of_ready {t : Rig ω τ} (h : s.ready host = (t, none)) :
    ∃ state, t.machine.state? = some state ∧
      s.tick host =
        (⟨{ t.machine.mapState State.tick with ticks := t.machine.ticks + 1 },
            (host.draw state.display t.world).1⟩,
          (host.draw state.display t.world).2) := by
  obtain ⟨g, hg⟩ := s.running_of_ready host h
  obtain ⟨state, hstate⟩ := t.machine.state?_of_running hg
  exact ⟨state, hstate, (s.tick_eq_lower host h).trans (t.lower_eq host hstate)⟩

theorem tick_of_not_ready {t : Rig ω τ} {e : Failure} (h : s.ready host = (t, some e)) :
    s.tick host = (t, some e) := by
  unfold tick
  rw [h]

/-- A tick leaves a running machine running, however the picture is received. -/
theorem life_tick {g : Bool} (h : s.machine.life = .running g) :
    (s.tick host).1.machine.life = .running g := by
  obtain ⟨state, -, htick⟩ := s.tick_of_ready host (s.ready_of_running host h)
  rw [htick]
  exact (s.machine.life_mapState State.tick).trans h

end

section

variable {ω τ : Type} [OfNat τ 0] [Sub τ] [HasRates τ] (host : Host ω τ) (s : Rig ω τ)

theorem cycle_of_not_ready {t : Rig ω τ} {e : Failure} (h : s.ready host = (t, some e)) :
    s.cycle host = (t, some e) := by
  unfold cycle
  rw [h]

/-- A cycle that is ready makes a step from the state of the sampled machine. A fault halts that
machine, and a success goes to the observer. -/
theorem cycle_of_ready {u : Rig ω τ} {m : Machine τ} {seen : State}
    (hready : s.ready host = (u, none)) (hm : u.machine.sample (host.pressedKeys u.world) = m)
    (hseen : m.state? = some seen) :
    s.cycle host =
      match seen.step with
      | .error f => (halt host (some (.fault f)) ⟨m, u.world⟩, some (.fault f))
      | .ok (after, word) => notify host ⟨word⟩ ⟨m.commit ⟨word⟩ after, u.world⟩ := by
  unfold cycle
  cases hstep : seen.step with
  | error f => simp only [hready, hm, hseen, hstep]
  | ok result => simp only [hready, hm, hseen, hstep]

/-- A cycle that reaches its fetch carries out the instruction on the state that it fetches from. -/
theorem cycle_of_fetches {codes : List Int} {seen : State}
    (h : s.fetches? host = some (codes, seen)) :
    ∃ u, s.ready host = (u, none) ∧ codes = host.pressedKeys u.world ∧
      (u.machine.sample codes).state? = some seen ∧
      (∀ f, seen.step = .error f →
        s.cycle host =
          (halt host (some (.fault f)) { u with machine := u.machine.sample codes },
            some (.fault f))) ∧
      ∀ after word, seen.step = .ok (after, word) →
        s.cycle host = notify host ⟨word⟩
          { u with machine := (u.machine.sample codes).commit ⟨word⟩ after } := by
  obtain ⟨u, hready, rfl, hseen⟩ := s.fetches?_eq_some host h
  have hcycle := s.cycle_of_ready host hready rfl hseen
  refine ⟨u, hready, rfl, hseen, fun f hstep => ?_, fun after word hstep => ?_⟩
  · rw [hcycle, hstep]
  · rw [hcycle, hstep]

/-- A cycle that executes an instruction ends with what the observer makes of it. -/
theorem cycle_of_observed {i : Instruction} {t : Rig ω τ} (h : s.observed? host = some (i, t)) :
    s.cycle host = t.notify host i := by
  obtain ⟨u, state, after, word, hready, hstate, hstep, rfl, rfl⟩ := s.observed?_eq_some host h
  unfold cycle
  simp only [hready, hstate, hstep]

/-- A cycle of a running machine executes an instruction, and the observer sees a machine that
goes on as before; or it halts the machine with the fault that it fails with. -/
theorem cycle_cases {g : Bool} (h : s.machine.life = .running g) :
    (∃ i t, s.observed? host = some (i, t) ∧ t.machine.life = .running g ∧
      s.cycle host = t.notify host i) ∨
    ∃ f, (s.cycle host).2 = some (.fault f) ∧
      (s.cycle host).1.machine.life = .halted (some (.fault f)) := by
  have hready := s.ready_of_running host h
  have hsampled : (s.machine.sample (host.pressedKeys s.world)).life = .running g := by
    simpa using h
  obtain ⟨state, hstate⟩ := Machine.state?_of_running _ hsampled
  have hcycle := s.cycle_of_ready host hready rfl hstate
  cases hstep : state.step with
  | ok result =>
    have hobs : s.observed? host = some (⟨result.2⟩, { s with
        machine := (s.machine.sample (host.pressedKeys s.world)).commit ⟨result.2⟩ result.1 }) := by
      unfold observed?
      simp [hready, hstate, hstep]
    rw [hstep] at hcycle
    exact .inl ⟨_, _, hobs, by simpa using h, hcycle⟩
  | error f =>
    rw [hstep] at hcycle
    refine .inr ⟨f, by rw [hcycle], ?_⟩
    rw [hcycle, life_halt, hsampled]
    rfl

end

/-! ## Iterations -/

end Rig

namespace Loop

variable {ω τ : Type} [OfNat τ 0] [OfNat τ 1] [OfNat τ 4] [Add τ] [Sub τ] [Mul τ] [Div τ]
  [LE τ] [DecidableLE τ] [HasRates τ]

/-- How an iteration goes that sees the time `now`: one of the two activities fails, or one of them
fires, or the loop sleeps. -/
inductive Iterates (host : Host ω τ) (now : τ) (l : Loop ω τ) : Loop ω τ × Option Failure → Prop
  | instructionFailed {l₁ : Loop ω τ} {fired : Bool} {e : Failure}
      (instruction : l.fireInstruction host now = (l₁, fired, some e)) :
      Iterates host now l (l₁, some e)
  | timerFailed {l₁ l₂ : Loop ω τ} {fired ticked : Bool} {e : Failure}
      (instruction : l.fireInstruction host now = (l₁, fired, none))
      (timer : l₁.fireTimer host now = (l₂, ticked, some e)) : Iterates host now l (l₂, some e)
  | active {l₁ l₂ : Loop ω τ} {fired ticked : Bool}
      (instruction : l.fireInstruction host now = (l₁, fired, none))
      (timer : l₁.fireTimer host now = (l₂, ticked, none)) (any : (fired || ticked) = true) :
      Iterates host now l (l₂, none)
  | idle {l₁ l₂ : Loop ω τ} {r : Loop ω τ × Option Failure}
      (instruction : l.fireInstruction host now = (l₁, false, none))
      (timer : l₁.fireTimer host now = (l₂, false, none)) (slept : l₂.idle host = r) :
      Iterates host now l r

theorem iterates_iterateAt (host : Host ω τ) (now : τ) (l : Loop ω τ) :
    Iterates host now l (l.iterateAt host now) := by
  unfold iterateAt
  rcases hfire : l.fireInstruction host now with ⟨l₁, fired, _ | e⟩
  · rcases htick : l₁.fireTimer host now with ⟨l₂, ticked, _ | e⟩
    · simp only [htick]
      by_cases hany : fired || ticked
      · rw [if_pos hany]
        exact .active hfire htick hany
      · rw [if_neg hany]
        obtain ⟨rfl, rfl⟩ : fired = false ∧ ticked = false := by simpa using hany
        exact .idle hfire htick rfl
    · simp only [htick]
      exact .timerFailed hfire htick
  · exact .instructionFailed hfire

/-- An iteration sees the time that the clock shows. -/
theorem iterates_iterate (host : Host ω τ) (l : Loop ω τ) :
    Iterates host (l.rig.readClock host).1 { l with rig := (l.rig.readClock host).2 }
      (l.iterate host) :=
  iterates_iterateAt host _ _

end Loop

namespace Rig

/-! ## Runs -/

section

variable {ω τ : Type} [OfNat τ 0] [OfNat τ 1] [OfNat τ 4] [Add τ] [Sub τ] [Mul τ] [Div τ]
  [LE τ] [DecidableLE τ] [HasRates τ] (host : Host ω τ) (fuel : Nat) (s : Rig ω τ)

/-- A run that cannot start does nothing more. -/
theorem run_of_not_ready {t : Rig ω τ} {e : Failure} (h : s.ready host = (t, some e)) :
    s.run host fuel = some (t, some e) := by
  unfold run
  rw [h]

/-- A run that starts enters the loop, unless there are no periods for it. -/
theorem run_of_ready {t : Rig ω τ} (h : s.ready host = (t, none)) :
    s.run host fuel = if t.machine.config.hasRates then (t.enterLoop host).finish host fuel
      else some (t, some .rateTooLarge) := by
  unfold run
  rw [h]

/-- However a loop ends, the machine has halted. -/
theorem status_of_finish {l : Loop ω τ} {t : Rig ω τ} {failure : Option Failure}
    (hfinish : l.finish host fuel = some (t, failure)) : t.machine.status = .halted := by
  induction fuel generalizing l with
  | zero => cases hfinish
  | succ fuel ih =>
    unfold Loop.finish at hfinish
    by_cases hgo : l.rig.machine.goesOn
    · rw [if_pos hgo] at hfinish
      rcases hl : l.iterate host with ⟨l', _ | e⟩
      · simp only [hl] at hfinish
        exact ih hfinish
      · simp only [hl] at hfinish
        cases hfinish
        exact status_halt host _ _
    · rw [if_neg hgo] at hfinish
      cases hfinish
      exact status_halt host _ _

/-- A run that does not halt the machine has done no more than start it. -/
theorem run_halted_or_ready {t : Rig ω τ} {failure : Option Failure}
    (hrun : s.run host fuel = some (t, failure)) :
    t.machine.status = .halted ∨ ∃ failure', s.ready host = (t, failure') := by
  rcases hready : s.ready host with ⟨u, _ | e⟩
  · rw [s.run_of_ready host fuel hready] at hrun
    by_cases hrates : u.machine.config.hasRates
    · rw [if_pos hrates] at hrun
      exact .inl (status_of_finish host fuel hrun)
    · rw [if_neg hrates] at hrun
      cases hrun
      exact .inr ⟨none, rfl⟩
  · rw [s.run_of_not_ready host fuel hready] at hrun
    cases hrun
    exact .inr ⟨some e, rfl⟩

end

end Rig

end Chip8
