/-
Chip8.Proofs.Refinement — a machine does what the interpreter does.

Cycles, ticks and changes of the world are compared with the run of the
interpreter that they amount to (`Rig.beats`): one beat for every cycle or
tick that the machine was ready for, a cycle with the codes of the keys
that the adapter answered with in it.

`Machine.Agrees` relates a machine to a run: its state, its counts and its
last instruction are those of the run, and its two copies of the keys are
equal, without which a sample would not do what `State.press` does
(`state?_sample_of_agrees`). Every call keeps it (`agrees_after`) and so
does a history (`agrees_afterAll`), with the notes of the observer.
`calls_refine_play` adds what the next call does, up to the first fault.
-/
import Chip8.Proofs.Outcome
import Chip8.Proofs.Recording
import Chip8.Proofs.Sampling

namespace Chip8

/-! ## Machines and runs -/

namespace Machine

/-- A machine that is not halted has done what a run tells: it is in the state of the run, or at
the start of its program if it has not started, and it has counted what the run has executed. -/
structure Agrees {τ : Type} (m : Machine τ) (p : Progress) : Prop where
  live : m.status ≠ .halted
  accepted : m.refusal = none
  state : m.state?.getD (State.start m.config.seed m.program) = p.state
  current : m.Current
  cycles : m.cycles = p.executed.length
  previous : m.previous = p.executed.getLast?.map fun e => e.instruction
  ticks : m.ticks = p.ticks

variable {τ : Type} {m : Machine τ} {p : Progress}

theorem agrees_new {program : List UInt8} {config : Config τ} (threshold : Level)
    (hseed : Random.isSeed config.seed = true) (hsize : program.length ≤ Memory.programLimit) :
    (new program config threshold).Agrees (Progress.start config.seed program) where
  live := Status.noConfusion
  accepted := (refusal_eq_none_iff _).mpr ⟨hseed, Nat.not_lt.mpr hsize⟩
  state := rfl
  current := rfl
  cycles := rfl
  previous := rfl
  ticks := rfl

theorem agrees_journal (h : m.Agrees p) (journal : Array (Entry τ)) :
    { m with journal := journal }.Agrees p :=
  ⟨h.live, h.accepted, h.state, h.current, h.cycles, h.previous, h.ticks⟩

theorem agrees_stop (h : m.Agrees p) : m.stop.Agrees p := by
  obtain ⟨phase, hphase⟩ := m.stop_frame
  have hstate := m.state?_stop
  have hcurrent := kept_current.stop m h.current
  have hstatus := m.status_stop
  rw [hphase] at hstate hcurrent hstatus ⊢
  refine ⟨hstatus ▸ h.live, h.accepted, ?_, hcurrent, h.cycles, h.previous, h.ticks⟩
  rw [hstate]
  exact h.state

/-- A machine that starts is where it was expected to be. -/
theorem agrees_started (h : m.Agrees p) (hbooting : m.status = .booting) (startedAt : τ) :
    (m.started startedAt).Agrees p := by
  have hstate := h.state
  rw [m.state?_of_booting hbooting] at hstate
  exact ⟨Status.noConfusion, h.accepted, hstate,
    kept_current.start m startedAt hbooting h.accepted h.current, h.cycles, h.previous, h.ticks⟩

theorem state?_of_agrees (h : m.Agrees p) {g : Bool} (hrunning : m.life = .running g) :
    m.state? = some p.state := by
  obtain ⟨state, hstate⟩ := m.state?_of_running hrunning
  have heq := h.state
  rw [hstate, Option.getD_some] at heq
  rw [hstate, heq]

/-- **What an instruction sees** is the state of the run with the keys pressed. -/
theorem state?_sample_of_agrees (h : m.Agrees p) {g : Bool} (hrunning : m.life = .running g)
    (codes : List Int) : (m.sample codes).state? = some (p.state.press codes) :=
  state?_sample_of_current (state?_of_agrees h hrunning) h.current codes

theorem agrees_sample (h : m.Agrees p) {g : Bool} (hrunning : m.life = .running g)
    (codes : List Int) : (m.sample codes).Agrees (p.press codes) := by
  have hcurrent := current_sample (state?_of_agrees h hrunning) codes h.current
  have hstate := state?_sample_of_agrees h hrunning codes
  have hstatus := m.status_sample codes
  have hrefusal := m.refusal_sample codes
  obtain ⟨phase, hphase⟩ := m.sample_frame codes
  rw [hphase] at hcurrent hstate hstatus hrefusal ⊢
  refine ⟨hstatus ▸ h.live, hrefusal.trans h.accepted, ?_, hcurrent, ?_, ?_, ?_⟩
  · rw [hstate]
    rfl
  · rw [Progress.executed_press]
    exact h.cycles
  · rw [Progress.executed_press]
    exact h.previous
  · rw [Progress.ticks_press]
    exact h.ticks

theorem agrees_commit (h : m.Agrees p) {g : Bool} (hrunning : m.life = .running g)
    {after : State} {word : UInt16} (hstep : p.state.step = .ok (after, word)) :
    (m.commit ⟨word⟩ after).Agrees (p.execute ⟨p.state, ⟨word⟩, after⟩) := by
  have hbefore := state?_of_agrees h hrunning
  have hcurrent := kept_current.commit m p.state after word hbefore hstep h.current
  have hstatus := m.status_mapState fun _ => after
  have hrefusal := m.refusal_mapState fun _ => after
  have hstate := m.state?_commit ⟨word⟩ after
  rw [hbefore, Option.map_some] at hstate
  unfold commit at hcurrent hstate ⊢
  obtain ⟨phase, hphase⟩ := m.mapState_frame fun _ => after
  rw [hphase] at hcurrent hstatus hrefusal hstate ⊢
  refine ⟨hstatus ▸ h.live, hrefusal.trans h.accepted, ?_, hcurrent, ?_, ?_, ?_⟩
  · rw [hstate]
    rfl
  · rw [Progress.executed_execute, List.length_append]
    exact congrArg (· + 1) h.cycles
  · rw [Progress.executed_execute, List.getLast?_concat]
    rfl
  · rw [Progress.ticks_execute]
    exact h.ticks

theorem agrees_tick (h : m.Agrees p) {g : Bool} (hrunning : m.life = .running g) :
    { m.mapState State.tick with ticks := m.ticks + 1 }.Agrees p.tick := by
  have hstate : (m.mapState State.tick).state? = some p.state.tick := by
    rw [m.state?_mapState, state?_of_agrees h hrunning]
    rfl
  have hcurrent := kept_current.tick m h.current
  have hstatus := m.status_mapState State.tick
  have hrefusal := m.refusal_mapState State.tick
  obtain ⟨phase, hphase⟩ := m.mapState_frame State.tick
  rw [hphase] at hstate hcurrent hstatus hrefusal ⊢
  refine ⟨hstatus ▸ h.live, hrefusal.trans h.accepted, ?_, hcurrent, ?_, ?_, ?_⟩
  · show Option.getD (state? { m with phase := phase }) _ = _
    rw [hstate]
    rfl
  · rw [Progress.executed_tick]
    exact h.cycles
  · rw [Progress.executed_tick]
    exact h.previous
  · rw [Progress.ticks_tick]
    exact congrArg (· + 1) h.ticks

end Machine

/-! ## Calls and beats -/

/-- A cycle, a tick or a change of the world. -/
inductive Call.Plain {ω : Type} : Call ω → Prop
  | cycle : Plain .cycle
  | tick : Plain .tick
  | affect (f : ω → ω) : Plain (.affect f)

/-- What the observer was told in a run. -/
def Progress.notes (p : Progress) : List Note := p.executed.map Execution.note

@[simp] theorem Progress.notes_execute (p : Progress) (e : Execution) :
    (p.execute e).notes = p.notes ++ [e.note] := by
  unfold notes
  rw [executed_execute, List.map_append]
  rfl

@[simp] theorem Progress.notes_tick (p : Progress) : p.tick.notes = p.notes := by
  unfold notes
  rw [executed_tick]

namespace Rig

section

variable {ω τ : Type} [HasRates τ] {host : Host ω τ} {s : Rig ω τ} {p : Progress}

variable (host) in
/-- A machine that agrees gets ready, unless its rates cannot be reported at its start, and runs
then. -/
theorem agrees_ready (h : s.machine.Agrees p) :
    (s.ready host).1.machine.Agrees p ∧ (∃ g, (s.ready host).1.machine.life = .running g) ∧
      (s.machine.config.hasRates = true → (s.ready host).2 = none) := by
  rcases s.machine.life_of_not_halted h.live with hlife | ⟨g, hlife⟩
  · have hbooting := s.machine.status_of_booting hlife
    obtain ⟨journal, hboot⟩ := s.boot_of_accepted host h.live h.accepted
    rw [s.ready_of_booting host hlife, hboot]
    exact ⟨Machine.agrees_journal (Machine.agrees_started h hbooting _) journal, ⟨true, rfl⟩,
      fun hrates => if_pos hrates⟩
  · rw [s.ready_of_running host hlife]
    exact ⟨h, ⟨g, hlife⟩, fun _ => rfl⟩

variable (host) in
/-- The beat that a call amounts to, if the machine is ready for it. -/
def beatsOf (s : Rig ω τ) (c : Call ω) : List Beat :=
  match c, s.ready host with
  | .cycle, (u, none) => [.cycle (host.pressedKeys u.world)]
  | .tick, (_, none) => [.tick]
  | _, _ => []

theorem beatsOf_of_not_ready {c : Call ω} {u : Rig ω τ} {e : Failure}
    (hready : s.ready host = (u, some e)) : s.beatsOf host c = [] := by
  unfold beatsOf
  rw [hready]
  cases c <;> rfl

theorem beatsOf_cycle {u : Rig ω τ} (hready : s.ready host = (u, none)) :
    s.beatsOf host .cycle = [.cycle (host.pressedKeys u.world)] := by
  unfold beatsOf
  rw [hready]

theorem beatsOf_tick {u : Rig ω τ} (hready : s.ready host = (u, none)) :
    s.beatsOf host .tick = [.tick] := by
  unfold beatsOf
  rw [hready]

end

section

variable {ω τ : Type} [OfNat τ 0] [Sub τ] {host : Host ω τ} {s : Rig ω τ} {p : Progress}

theorem agrees_act (h : s.machine.Agrees p) {a : Action ω} (ha : ∀ error, a ≠ .halt error) :
    (s.act host a).machine.Agrees p := by
  cases a with
  | affect f => exact h
  | stop => exact Machine.agrees_stop h
  | halt error => exact absurd rfl (ha error)
  | trace =>
    unfold act
    cases s.machine.lastStep? with
    | none => exact h
    | some report =>
      obtain ⟨journal, hrecord⟩ := s.record_eq host report
      show (s.record host report).machine.Agrees p
      rw [hrecord]
      exact Machine.agrees_journal h journal

/-- An observer that does not halt the machine leaves it running as the run tells. -/
theorem agrees_notify (hobs : host.observer.NeverHalts) (h : s.machine.Agrees p) {g : Bool}
    (hrunning : s.machine.life = .running g) (i : Instruction) :
    (s.notify host i).1.machine.Agrees p ∧
      ∃ g', (s.notify host i).1.machine.life = .running g' := by
  constructor
  · refine s.notify_preserves host (P := fun u => u.machine.Agrees p) i h
      fun u a ha hu => agrees_act hu ?_
    rintro error rfl
    exact hobs s.machine i s.world error ha
  · rw [s.life_notify host i, hrunning]
    exact Life.running_foldl_act _ (hobs s.machine i s.world) g

end

section

variable {ω τ : Type} [HasRates τ] {host : Host ω τ} {s u : Rig ω τ} {p : Progress}

/-- In a cycle the sampled machine is where the run is with the keys pressed. -/
theorem agrees_sampled (h : s.machine.Agrees p) (hready : s.ready host = (u, none)) :
    ∃ m g, u.machine.sample (host.pressedKeys u.world) = m ∧ m.life = .running g ∧
      m.Agrees (p.press (host.pressedKeys u.world)) ∧
      m.state? = some (p.state.press (host.pressedKeys u.world)) := by
  obtain ⟨hu, ⟨g, hrunning⟩, -⟩ := agrees_ready host h
  rw [hready] at hu hrunning
  exact ⟨_, g, rfl, (u.machine.life_sample _).trans hrunning,
    Machine.agrees_sample hu hrunning _, Machine.state?_sample_of_agrees hu hrunning _⟩

/-- **A tick is a beat**; it fails only if the adapter cannot receive the picture. -/
theorem agrees_ticked (h : s.machine.Agrees p) (hready : s.ready host = (u, none)) :
    (s.tick host).2 = (host.draw p.state.display u.world).2 ∧
      (s.tick host).1.machine.Agrees p.tick ∧ ∃ g, (s.tick host).1.machine.life = .running g := by
  obtain ⟨hu, ⟨g, hrunning⟩, -⟩ := agrees_ready host h
  rw [hready] at hu hrunning
  obtain ⟨state, hstate, htick⟩ := s.tick_of_ready host hready
  obtain rfl : p.state = state :=
    Option.some.inj ((Machine.state?_of_agrees hu hrunning).symm.trans hstate)
  rw [htick]
  have hlife := (u.machine.life_mapState State.tick).trans hrunning
  exact ⟨rfl, Machine.agrees_tick hu hrunning, g, hlife⟩

variable [OfNat τ 0] [Sub τ]

/-- **A cycle is a beat**: where the interpreter executes an instruction, so does the machine, and
its observer is told of it once. -/
theorem agrees_cycle (hobs : host.observer.NeverHalts) (h : s.machine.Agrees p)
    (hready : s.ready host = (u, none)) {after : State} {word : UInt16}
    (hstep : (p.state.press (host.pressedKeys u.world)).step = .ok (after, word)) :
    (∃ v : Rig ω τ, v.machine.state? = some after ∧ s.cycle host = v.notify host ⟨word⟩) ∧
      (s.cycle host).1.machine.Agrees
        (p.execute ⟨p.state.press (host.pressedKeys u.world), ⟨word⟩, after⟩) ∧
      (∃ g, (s.cycle host).1.machine.life = .running g) ∧
      s.told host = [⟨⟨word⟩, some after⟩] := by
  obtain ⟨m, g, hm, hrunning, hsampled, hseen⟩ := agrees_sampled h hready
  have htold : s.told host = [⟨⟨word⟩, some after⟩] := by
    rw [s.told_of_ready host hready (hm ▸ hseen), hstep]
  have hcycle : s.cycle host = notify host ⟨word⟩ ⟨m.commit ⟨word⟩ after, u.world⟩ := by
    rw [s.cycle_of_ready host hready hm hseen, hstep]
  have hafter : (m.commit ⟨word⟩ after).state? = some after := by
    rw [m.state?_commit, hseen]
    rfl
  rw [← Progress.state_press] at hstep
  have hcommit := Machine.agrees_commit hsampled hrunning hstep
  rw [Progress.state_press, Progress.execute_press] at hcommit
  obtain ⟨hagrees, hgoes⟩ := agrees_notify (s := ⟨m.commit ⟨word⟩ after, u.world⟩) hobs hcommit
    ((m.life_commit ⟨word⟩ after).trans hrunning) ⟨word⟩
  rw [hcycle]
  exact ⟨⟨⟨m.commit ⟨word⟩ after, u.world⟩, hafter, rfl⟩, hagrees, hgoes, htold⟩

/-- A cycle whose step fails halts the sampled machine with the fault, and keeps its state. -/
theorem cycle_eq_of_fault (h : s.machine.Agrees p) (hready : s.ready host = (u, none))
    {f : Fault} (hstep : (p.state.press (host.pressedKeys u.world)).step = .error f) :
    ∃ m journal world, m.Agrees (p.press (host.pressedKeys u.world)) ∧
      u.machine.sample (host.pressedKeys u.world) = m ∧
      m.state? = some (p.state.press (host.pressedKeys u.world)) ∧
      s.cycle host =
        (⟨{ m with phase := .halted m.state? (some (.fault f)), journal := journal }, world⟩,
          some (.fault f)) := by
  obtain ⟨m, g, hm, hrunning, hsampled, hseen⟩ := agrees_sampled h hready
  have hcycle : s.cycle host = (halt host (some (.fault f)) ⟨m, u.world⟩, some (.fault f)) := by
    rw [s.cycle_of_ready host hready hm hseen, hstep]
  obtain ⟨journal, hhalt⟩ := halt_of_running host ⟨m, u.world⟩ (some (.fault f)) hrunning
  rw [hhalt] at hcycle
  exact ⟨m, journal, _, hsampled, hm, hseen, hcycle⟩

/-- A cycle whose step fails halts the machine with the fault, which is not counted and of which
the observer is not told. -/
theorem cycle_of_fault (h : s.machine.Agrees p) (hready : s.ready host = (u, none))
    {f : Fault} (hstep : (p.state.press (host.pressedKeys u.world)).step = .error f) :
    (s.cycle host).2 = some (.fault f) ∧ (s.cycle host).1.machine.error? = some (.fault f) ∧
      (s.cycle host).1.machine.cycles = p.executed.length ∧ s.told host = [] := by
  obtain ⟨m, journal, world, hsampled, hm, hseen, hcycle⟩ := cycle_eq_of_fault h hready hstep
  have htold : s.told host = [] := by
    rw [s.told_of_ready host hready (hm ▸ hseen), hstep]
  have hcycles := hsampled.cycles
  rw [Progress.executed_press] at hcycles
  rw [hcycle]
  exact ⟨rfl, rfl, hcycles, htold⟩

/-- A cycle in terms of its beat, of which there is none if the machine is not ready. -/
theorem agrees_cycle_of_beats (hobs : host.observer.NeverHalts) (h : s.machine.Agrees p)
    {q : Progress} (hplay : p.play (s.beatsOf host .cycle) = .ok q) :
    (s.cycle host).1.machine.Agrees q ∧ (∃ g, (s.cycle host).1.machine.life = .running g) ∧
      q.notes = p.notes ++ s.told host := by
  rcases hready : s.ready host with ⟨u, _ | e⟩
  · rw [beatsOf_cycle hready, Progress.play_singleton, Progress.beat_eq_ok_iff] at hplay
    rcases hplay with ⟨codes, after, word, hcodes, hstep, rfl⟩ | ⟨hbeat, -⟩
    · cases hcodes
      obtain ⟨-, hagrees, hgoes, htold⟩ := agrees_cycle hobs h hready hstep
      exact ⟨hagrees, hgoes, by rw [htold, Progress.notes_execute]; rfl⟩
    · cases hbeat
  · rw [beatsOf_of_not_ready hready] at hplay
    cases hplay
    obtain ⟨hu, hgoes, -⟩ := agrees_ready host h
    rw [hready] at hu hgoes
    rw [s.cycle_of_not_ready host hready, s.told_of_not_ready host hready, List.append_nil]
    exact ⟨hu, hgoes, rfl⟩

variable (host) in
/-- The next call does what the next beat of a run does, and fails for no other reason than the
step, the observer or the adapter. -/
structure Continues (t : Rig ω τ) (p : Progress) : Prop where
  ready : t.machine.config.hasRates = true → ∃ u, t.ready host = (u, none)
  executed : ∀ u after word, t.ready host = (u, none) →
    (p.state.press (host.pressedKeys u.world)).step = .ok (after, word) →
    ∃ v : Rig ω τ, v.machine.state? = some after ∧ t.cycle host = v.notify host ⟨word⟩ ∧
      (t.cycle host).2 = (host.observer v.machine ⟨word⟩ v.world).2
  fault : ∀ u f, t.ready host = (u, none) →
    (p.state.press (host.pressedKeys u.world)).step = .error f →
    (t.cycle host).2 = some (.fault f) ∧ (t.cycle host).1.machine.error? = some (.fault f) ∧
      (t.cycle host).1.machine.cycles = p.executed.length ∧
      ∀ notes, (t.noting notes).cycle host.recording =
        ((t.cycle host).1.noting notes, some (.fault f))
  tick : ∀ u, t.ready host = (u, none) →
    (t.tick host).2 = (host.draw p.state.display u.world).2

/-- A machine that agrees with a run goes on like it. -/
theorem continues_of_agrees (hobs : host.observer.NeverHalts) {t : Rig ω τ}
    (h : t.machine.Agrees p) : t.Continues host p where
  ready hrates := ⟨(t.ready host).1, Prod.ext rfl ((agrees_ready host h).2.2 hrates)⟩
  executed u after word hready hstep := by
    obtain ⟨⟨v, hstate, hcycle⟩, -⟩ := agrees_cycle hobs h hready hstep
    exact ⟨v, hstate, hcycle, by rw [hcycle]; rfl⟩
  fault u f hready hstep := by
    obtain ⟨hfailure, herror, hcycles, htold⟩ := cycle_of_fault h hready hstep
    refine ⟨hfailure, herror, hcycles, fun notes => ?_⟩
    rw [t.noting_cycle host notes, htold, List.append_nil, hfailure]
  tick u hready := (agrees_ticked h hready).1

omit [OfNat τ 0] [Sub τ] in
/-- A tick in terms of its beat, of which there is none if the machine is not ready. -/
theorem agrees_tick_of_beats (h : s.machine.Agrees p) {q : Progress}
    (hplay : p.play (s.beatsOf host .tick) = .ok q) :
    (s.tick host).1.machine.Agrees q ∧ (∃ g, (s.tick host).1.machine.life = .running g) ∧
      q.notes = p.notes := by
  rcases hready : s.ready host with ⟨u, _ | e⟩
  · rw [beatsOf_tick hready, Progress.play_singleton, Progress.beat_eq_ok_iff] at hplay
    rcases hplay with ⟨_, _, _, hbeat, -⟩ | ⟨-, rfl⟩
    · cases hbeat
    · obtain ⟨-, hagrees, hgoes⟩ := agrees_ticked h hready
      exact ⟨hagrees, hgoes, p.notes_tick⟩
  · rw [beatsOf_of_not_ready hready] at hplay
    cases hplay
    obtain ⟨hu, hgoes, -⟩ := agrees_ready host h
    rw [hready] at hu hgoes
    rw [s.tick_of_not_ready host hready]
    exact ⟨hu, hgoes, rfl⟩

end

/-! ## Histories and runs -/

section

variable {ω τ : Type} [OfNat τ 0] [OfNat τ 1] [OfNat τ 4] [Add τ] [Sub τ] [Mul τ] [Div τ]
  [LE τ] [DecidableLE τ] [HasRates τ] {host : Host ω τ} {s : Rig ω τ} {p q : Progress}

variable (host) in
/-- The run that a history amounts to. -/
def beats (s : Rig ω τ) : List (Call ω) → List Beat
  | [] => []
  | c :: rest =>
    s.beatsOf host c ++
      match s.after host c with
      | some t => t.beats rest
      | none => []

/-- **What one call does** where its beat succeeds, to the machine and to the notes of the
observer. -/
theorem agrees_after (hobs : host.observer.NeverHalts) {c : Call ω} (hc : c.Plain)
    (h : s.machine.Agrees p) (hplay : p.play (s.beatsOf host c) = .ok q) :
    ∃ t, s.after host c = some t ∧ t.machine.Agrees q ∧
      (s.noting p.notes).after host.recording c.beside = some (t.noting q.notes) ∧
      (c = .cycle ∨ c = .tick ∨ s.machine.status = .running → t.machine.status = .running) := by
  cases hc with
  | cycle =>
    obtain ⟨hagrees, ⟨g, hgoes⟩, hnotes⟩ := agrees_cycle_of_beats hobs h hplay
    refine ⟨(s.cycle host).1, rfl, hagrees, ?_, fun _ => Machine.status_of_running _ hgoes⟩
    rw [hnotes]
    exact congrArg (fun r => some r.1) (s.noting_cycle host p.notes)
  | tick =>
    obtain ⟨hagrees, ⟨g, hgoes⟩, hnotes⟩ := agrees_tick_of_beats h hplay
    refine ⟨(s.tick host).1, rfl, hagrees, ?_, fun _ => Machine.status_of_running _ hgoes⟩
    rw [hnotes]
    exact congrArg (fun r => some r.1) (s.noting_tick host p.notes)
  | affect f =>
    cases hplay
    refine ⟨{ s with world := f s.world }, rfl, h, rfl, ?_⟩
    rintro (hcall | hcall | hcall)
    · cases hcall
    · cases hcall
    · exact hcall

/-- **What a history does**, by induction on its calls. -/
theorem agrees_afterAll (hobs : host.observer.NeverHalts) {calls : List (Call ω)}
    (hplain : ∀ c ∈ calls, c.Plain) (h : s.machine.Agrees p)
    (hplay : p.play (s.beats host calls) = .ok q) :
    ∃ t, s.afterAll host calls = some t ∧ t.machine.Agrees q ∧
      (s.noting p.notes).afterAll host.recording (calls.map Call.beside) =
        some (t.noting q.notes) ∧
      (Call.cycle ∈ calls ∨ Call.tick ∈ calls ∨ s.machine.status = .running →
        t.machine.status = .running) := by
  induction calls generalizing s p with
  | nil =>
    cases hplay
    exact ⟨s, rfl, h, rfl, by simp⟩
  | cons c rest ih =>
    obtain ⟨r, hfirst, hrest⟩ := (Progress.play_append_eq_ok_iff p q _ _).mp hplay
    obtain ⟨u, hu, hagrees, hnotes, hgoes⟩ :=
      agrees_after hobs (hplain c List.mem_cons_self) h hfirst
    rw [hu] at hrest
    obtain ⟨t, ht, hq, htold, hruns⟩ :=
      ih (fun c' hc' => hplain c' (List.mem_cons_of_mem c hc')) hagrees hrest
    refine ⟨t, (afterAll_cons_eq_some host).mpr ⟨u, hu, ht⟩, hq, ?_, ?_⟩
    · exact (afterAll_cons_eq_some host.recording).mpr ⟨_, hnotes, htold⟩
    · intro hcalls
      refine hruns ?_
      by_cases hnow : c = .cycle ∨ c = .tick ∨ s.machine.status = .running
      · exact .inr (.inr (hgoes hnow))
      · rcases hcalls with hmem | hmem | hrunning
        · rcases List.mem_cons.mp hmem with rfl | hmem
          · exact absurd (.inl rfl) hnow
          · exact .inl hmem
        · rcases List.mem_cons.mp hmem with rfl | hmem
          · exact absurd (.inr (.inl rfl)) hnow
          · exact .inr (.inl hmem)
        · exact absurd (.inr (.inr hrunning)) hnow

variable (host) in
/-- Plain calls always come to an end. -/
theorem exists_afterAll_of_plain (s : Rig ω τ) {calls : List (Call ω)}
    (hplain : ∀ c ∈ calls, c.Plain) : ∃ t, s.afterAll host calls = some t := by
  induction calls generalizing s with
  | nil => exact ⟨s, rfl⟩
  | cons c rest ih =>
    have hrest : ∀ c' ∈ rest, c'.Plain := fun c' hc' => hplain c' (List.mem_cons_of_mem c hc')
    obtain ⟨u, hu⟩ : ∃ u, s.after host c = some u := by
      cases hplain c List.mem_cons_self with
      | cycle => exact ⟨_, rfl⟩
      | tick => exact ⟨_, rfl⟩
      | affect f => exact ⟨_, rfl⟩
    obtain ⟨t, ht⟩ := ih u hrest
    exact ⟨t, (afterAll_cons_eq_some host).mpr ⟨u, hu, ht⟩⟩

/-! ## The refinement -/

variable (host) in
/-- At the end of a history machine and observer have done what a run tells, and nothing else. -/
structure Follows (s t : Rig ω τ) (calls : List (Call ω)) (p : Progress) : Prop where
  state : Call.cycle ∈ calls ∨ Call.tick ∈ calls → t.machine.state? = some p.state
  cycles : t.machine.cycles = p.executed.length
  previous : t.machine.previous = p.executed.getLast?.map fun e => e.instruction
  ticks : t.machine.ticks = p.ticks
  told : (s.noting []).afterAll host.recording (calls.map Call.beside) = some (t.noting p.notes)

variable (host) in
/-- **A machine does what the interpreter does.** Whatever cycles and ticks are called on a new
machine whose program fits and whose seed is one, and however the world changes in between: as
long as the interpreter gets through the beats, machine and observer follow it, and the next call
does what the next beat does. So the first cycle whose step fails ends with that fault, and the
observer is not told of it. -/
theorem calls_refine_play (hobs : host.observer.NeverHalts) {program : List UInt8}
    {config : Config τ} {threshold : Level}
    (hnew : s.machine = Machine.new program config threshold)
    (hseed : Random.isSeed config.seed = true) (hsize : program.length ≤ Memory.programLimit)
    {calls : List (Call ω)} (hplain : ∀ c ∈ calls, c.Plain) :
    ∃ t, s.afterAll host calls = some t ∧
      ∀ p, (Progress.start config.seed program).play (s.beats host calls) = .ok p →
        s.Follows host t calls p ∧ t.Continues host p := by
  obtain ⟨t, ht⟩ := exists_afterAll_of_plain host s hplain
  refine ⟨t, ht, fun p hplay => ?_⟩
  have hstart : s.machine.Agrees (Progress.start config.seed program) := by
    rw [hnew]
    exact Machine.agrees_new threshold hseed hsize
  obtain ⟨t', ht', hagrees, htold, hgoes⟩ := agrees_afterAll hobs hplain hstart hplay
  obtain rfl : t = t' := Option.some.inj (ht.symm.trans ht')
  refine ⟨⟨fun hcalls => ?_, hagrees.cycles, hagrees.previous, hagrees.ticks, htold⟩,
    continues_of_agrees hobs hagrees⟩
  have hstatus := hgoes (hcalls.imp_right .inl)
  rcases t.machine.life_of_not_halted hagrees.live with hlife | ⟨g, hlife⟩
  · rw [t.machine.status_of_booting hlife] at hstatus
    cases hstatus
  · exact Machine.state?_of_agrees hagrees hlife

end

/-- Two cycles and a tick of a program that passes over a word because a key is held. -/
theorem two_instructions_told :
    ∃ (t : Rig (List Int) Rat) (p : Progress),
      awaiting.afterAll Host.holding [.cycle, .tick, .cycle] = some t ∧
      t.machine.state? = some p.state ∧ t.machine.cycles = 2 ∧ t.machine.ticks = 1 ∧
      (awaiting.noting []).afterAll Host.holding.recording [.cycle, .tick, .cycle] =
        some (t.noting p.notes) ∧
      p.notes.map (fun n => n.instruction.raw) = [0xE09E, 0x1200] := by
  have hrun : ((Progress.start 0 [0xE0, 0x9E, 0x12, 0x00, 0x12, 0x00]).play
      (awaiting.beats Host.holding [.cycle, .tick, .cycle])).map
        (fun p => (p.executed.length, p.ticks, p.notes.map fun n => n.instruction.raw)) =
      .ok (2, 1, [0xE09E, 0x1200]) := by
    decide +kernel
  have hobs : Host.holding.observer.NeverHalts := fun m i w error => List.not_mem_nil
  have hplain : ∀ c ∈ [Call.cycle, Call.tick, Call.cycle], (c : Call (List Int)).Plain := by
    intro c hc
    simp only [List.mem_cons, List.not_mem_nil, or_false] at hc
    rcases hc with rfl | rfl | rfl
    · exact .cycle
    · exact .tick
    · exact .cycle
  obtain ⟨t, ht, hfollows⟩ := calls_refine_play Host.holding (s := awaiting) hobs rfl (by decide)
    (by decide) hplain
  cases hplay : (Progress.start 0 [0xE0, 0x9E, 0x12, 0x00, 0x12, 0x00]).play
      (awaiting.beats Host.holding [.cycle, .tick, .cycle]) with
  | error f =>
    rw [hplay] at hrun
    cases hrun
  | ok p =>
    rw [hplay] at hrun
    obtain ⟨hlength, hrest⟩ := Prod.mk.inj (Except.ok.inj hrun)
    obtain ⟨hticks, hnotes⟩ := Prod.mk.inj hrest
    obtain ⟨h, -⟩ := hfollows p hplay
    exact ⟨t, p, ht, h.state (.inl List.mem_cons_self), h.cycles.trans hlength,
      h.ticks.trans hticks, h.told, hnotes⟩

end Rig

end Chip8
