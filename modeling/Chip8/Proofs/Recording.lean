/-
Chip8.Proofs.Recording — what an observer is told.

Nothing on a machine tells how often its observer was called, and with
what. The host `Host.recording` has an observer that notes this beside the
world before it does anything else.

The notes change nothing else: machine, world and failures of a cycle and
of a tick are those of the host without notes (`noting_cycle`,
`noting_tick`). A cycle adds the notes `Rig.told`: none if it does not
come to an instruction or the instruction fails, and otherwise one, of the
instruction and the state after it (`told_of_ready`).
-/
import Chip8.Proofs.Lifecycle
import Chip8.Proofs.History

namespace Chip8

/-! ## Notes -/

/-- What an observer was told: an instruction, and the state of the machine at that time. -/
structure Note where
  instruction : Instruction
  state? : Option State

/-- What an observer is told of an executed instruction. -/
def Execution.note (e : Execution) : Note := ⟨e.instruction, some e.after⟩

/-- The same action on a world with notes beside it. -/
def Action.beside {ω : Type} : Action ω → Action (ω × List Note)
  | .affect f => .affect fun w => (f w.1, w.2)
  | .stop => .stop
  | .halt error => .halt error
  | .trace => .trace

/-- Add to the notes. -/
def Action.note {ω : Type} (n : Note) : Action (ω × List Note) :=
  .affect fun w => (w.1, w.2 ++ [n])

/-- The same call on a world with notes beside it. -/
def Call.beside {ω : Type} : Call ω → Call (ω × List Note)
  | .boot => .boot
  | .cycle => .cycle
  | .tick => .tick
  | .stop => .stop
  | .halt error => .halt error
  | .run fuel => .run fuel
  | .runDetached fuel => .runDetached fuel
  | .affect f => .affect fun w => (f w.1, w.2)

/-- The same host, whose observer notes what it is told before it does anything else. -/
def Host.recording {ω τ : Type} (host : Host ω τ) : Host (ω × List Note) τ where
  clock w := ((host.clock w.1).1, ((host.clock w.1).2, w.2))
  stamp w := host.stamp w.1
  pressedKeys w := host.pressedKeys w.1
  draw picture w := (((host.draw picture w.1).1, w.2), (host.draw picture w.1).2)
  sleep pause w := (((host.sleep pause w.1).1, w.2), (host.sleep pause w.1).2)
  observer m i w :=
    (.note ⟨i, m.state?⟩ :: (host.observer m i w.1).1.map Action.beside,
      (host.observer m i w.1).2)

namespace Rig

/-- The same rig with notes beside its world. -/
def noting {ω τ : Type} (s : Rig ω τ) (notes : List Note) : Rig (ω × List Note) τ :=
  ⟨s.machine, (s.world, notes)⟩

/-! ## The notes change nothing else -/

@[simp] theorem noting_machine {ω τ : Type} (s : Rig ω τ) (notes : List Note) :
    (s.noting notes).machine = s.machine := rfl

section

variable {ω τ : Type} (host : Host ω τ) (s : Rig ω τ) (notes : List Note)

theorem noting_record (r : Report τ) :
    (s.noting notes).record host.recording r = (s.record host r).noting notes := by
  unfold record
  by_cases h : s.machine.threshold.rank ≤ r.level.rank
  · rw [if_pos h]
    exact if_pos h
  · rw [if_neg h]
    exact if_neg h

theorem noting_reportEnd (error : Option Failure) (elapsed : τ) :
    (s.noting notes).reportEnd host.recording error elapsed =
      (s.reportEnd host error elapsed).noting notes := by
  cases error with
  | none => exact s.noting_record host notes _
  | some e =>
    show ((s.noting notes).record host.recording _).record host.recording _ = _
    rw [noting_record, noting_record]
    rfl

end

section

variable {ω τ : Type} [OfNat τ 0] [Sub τ] (host : Host ω τ) (s : Rig ω τ) (notes : List Note)

theorem noting_halt (error : Option Failure) :
    (s.noting notes).halt host.recording error = (s.halt host error).noting notes := by
  unfold halt
  rw [noting_machine]
  cases s.machine.phase with
  | halted last earlier => rfl
  | booting =>
    exact noting_reportEnd host ⟨{ s.machine with phase := .halted none error }, s.world⟩ notes
      error 0
  | running state startedAt goesOn =>
    exact noting_reportEnd host
      ⟨{ s.machine with phase := .halted (some state) error }, (host.clock s.world).2⟩ notes error _

theorem noting_act (a : Action ω) :
    (s.noting notes).act host.recording a.beside = (s.act host a).noting notes := by
  cases a with
  | affect f => rfl
  | stop => rfl
  | halt error => exact s.noting_halt host notes error
  | trace =>
    show (s.noting notes).act host.recording .trace = (s.act host .trace).noting notes
    unfold act
    rw [noting_machine]
    cases s.machine.lastStep? with
    | none => rfl
    | some report => exact s.noting_record host notes report

theorem noting_acts (actions : List (Action ω)) :
    (actions.map Action.beside).foldl (act host.recording) (s.noting notes) =
      (actions.foldl (act host) s).noting notes := by
  induction actions generalizing s with
  | nil => rfl
  | cons a rest ih =>
    rw [List.map_cons, List.foldl_cons, List.foldl_cons, noting_act]
    exact ih (s.act host a)

/-- The observer notes what it is told, and does the same as without notes. -/
theorem noting_notify (i : Instruction) :
    (s.noting notes).notify host.recording i =
      ((s.notify host i).1.noting (notes ++ [⟨i, s.machine.state?⟩]), (s.notify host i).2) :=
  congrArg (·, (host.observer s.machine i s.world).2)
    (s.noting_acts host (notes ++ [⟨i, s.machine.state?⟩]) (host.observer s.machine i s.world).1)

end

section

variable {ω τ : Type} [HasRates τ] (host : Host ω τ) (s : Rig ω τ) (notes : List Note)

theorem noting_boot :
    (s.noting notes).boot host.recording =
      ((s.boot host).1.noting notes, (s.boot host).2) := by
  unfold boot
  rw [noting_machine]
  cases s.machine.phase with
  | halted last error => rfl
  | booting | running state startedAt goesOn =>
    by_cases hseed : Random.isSeed s.machine.config.seed
    · simp only [if_pos hseed]
      cases (State.initial (Random.ofSeed s.machine.config.seed)).loadProgram s.machine.program with
      | error f => rfl
      | ok state =>
        by_cases hrates : s.machine.config.hasRates
        · simp only [readClock, noting_machine, if_pos hrates]
          exact congrArg (·, none) (noting_record host
            ⟨{ s.machine with phase := .running state (host.clock s.world).1 true },
              (host.clock s.world).2⟩ notes _)
        · simp only [readClock, noting_machine, if_neg hrates]
          rfl
    · simp only [if_neg hseed]

theorem noting_ready :
    (s.noting notes).ready host.recording =
      ((s.ready host).1.noting notes, (s.ready host).2) := by
  unfold ready
  rw [noting_machine]
  cases s.machine.phase with
  | halted last error => rfl
  | booting => exact s.noting_boot host notes
  | running state startedAt goesOn => rfl

/-- What the observer is told in a cycle: nothing, or of the instruction and the state after it. -/
def told : List Note :=
  match s.observed? host with
  | some (i, t) => [⟨i, t.machine.state?⟩]
  | none => []

omit [HasRates τ] in
theorem noting_lower :
    (s.noting notes).lower host.recording = ((s.lower host).1.noting notes, (s.lower host).2) := by
  unfold lower
  simp only [noting_machine]
  cases Machine.picture? { s.machine.mapState State.tick with ticks := s.machine.ticks + 1 } with
  | none => rfl
  | some picture => rfl

theorem noting_tick :
    (s.noting notes).tick host.recording = ((s.tick host).1.noting notes, (s.tick host).2) := by
  unfold tick
  rw [noting_ready]
  rcases s.ready host with ⟨u, _ | e⟩
  · exact u.noting_lower host notes
  · rfl

theorem told_of_not_ready {u : Rig ω τ} {e : Failure} (h : s.ready host = (u, some e)) :
    s.told host = [] := by
  unfold told observed?
  rw [h]

/-- A cycle that is ready tells the observer of the step of its state, if that succeeds. -/
theorem told_of_ready {u : Rig ω τ} (hready : s.ready host = (u, none)) {seen : State}
    (hseen : (u.machine.sample (host.pressedKeys u.world)).state? = some seen) :
    s.told host = match seen.step with
      | .ok (after, word) => [⟨⟨word⟩, some after⟩]
      | .error _ => [] := by
  unfold told observed?
  simp only [hready, hseen, Option.map_some]
  cases seen.step with
  | error f => rfl
  | ok result =>
    show [(⟨⟨result.2⟩, (Machine.commit ⟨result.2⟩ result.1 _).state?⟩ : Note)] = _
    rw [Machine.state?_commit, hseen]
    rfl

/-- A cycle notes what it tells the observer, and does the same as without notes. -/
theorem noting_cycle [OfNat τ 0] [Sub τ] :
    (s.noting notes).cycle host.recording =
      ((s.cycle host).1.noting (notes ++ s.told host), (s.cycle host).2) := by
  rcases hready : s.ready host with ⟨u, _ | e⟩
  · obtain ⟨seen, hseen, -⟩ := s.fetches?_of_ready host hready
    have htold := s.told_of_ready host hready hseen
    have hnoting : (s.noting notes).ready host.recording = (u.noting notes, none) := by
      rw [noting_ready, hready]
    -- Both cycles go on from one sampled machine.
    obtain ⟨m, hm⟩ : ∃ m, u.machine.sample (host.pressedKeys u.world) = m := ⟨_, rfl⟩
    rw [hm] at hseen
    have hwith := (s.noting notes).cycle_of_ready host.recording hnoting hm hseen
    have hwithout := s.cycle_of_ready host hready hm hseen
    cases hstep : seen.step with
    | error f =>
      rw [hstep] at hwith hwithout htold
      rw [hwith, hwithout, htold, List.append_nil]
      exact congrArg (·, some (Failure.fault f))
        (noting_halt host ⟨m, u.world⟩ notes (some (Failure.fault f)))
    | ok result =>
      obtain ⟨after, word⟩ := result
      rw [hstep] at hwith hwithout htold
      have hnotify := noting_notify host ⟨m.commit ⟨word⟩ after, u.world⟩ notes ⟨word⟩
      rw [Machine.state?_commit, hseen] at hnotify
      rw [hwith, hwithout, htold]
      exact hnotify
  · rw [s.told_of_not_ready host hready, List.append_nil, s.cycle_of_not_ready host hready]
    exact cycle_of_not_ready host.recording _ (by rw [noting_ready, hready])

end

end Rig

end Chip8
