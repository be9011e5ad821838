/-
Chip8.Proofs.Course — what a machine goes through in the calls made on it.

A machine moves when it starts its program, executes an instruction or
lowers its timers (`Move`, `Rig.Moves`). Whatever else happens to it is
quiet: the clock is read, keys are sampled, a stop is requested, the end
comes, the observer acts (`Rig.Quiet`). A course is a sequence of both,
told by its moves (`Rig.Course`).

Quiet changes reach no more of a state than its keys. A part of the state
that the keys are not in is therefore decided by the moves, and by those
since the last start (`Course.tracked`); what a move does to it is said by
`Move.Tracks`.
-/
import Mathlib.Data.List.DropRight
import Chip8.Proofs.Interpreter
import Chip8.Proofs.Preservation
import Chip8.Proofs.WriteSets

namespace Chip8

/-! ## Moves -/

/-- A move of a machine. -/
inductive Move where
  /-- The machine is at the start of its program. -/
  | start
  | execute (e : Execution)
  /-- The timers are lowered, in the given state. -/
  | tick (before : State)

namespace Move

def isStart : Move → Bool
  | .start => true
  | .execute _ | .tick _ => false

def isTick : Move → Bool
  | .tick _ => true
  | .start | .execute _ => false

def executed? : Move → Option Execution
  | .execute e => some e
  | .start | .tick _ => none

end Move

/-- The moves after the last start. -/
def sinceStart (moves : List Move) : List Move := moves.rtakeWhile fun m => !m.isStart

theorem sinceStart_concat_start (moves : List Move) : sinceStart (moves ++ [.start]) = [] :=
  List.rtakeWhile_concat_neg _ _ _ (by decide)

theorem sinceStart_concat {m : Move} (h : m.isStart = false) (moves : List Move) :
    sinceStart (moves ++ [m]) = sinceStart moves ++ [m] :=
  List.rtakeWhile_concat_pos _ _ _ (by rw [h]; rfl)

/-- The instructions that were executed, in order. -/
def executions (moves : List Move) : List Execution := moves.filterMap Move.executed?

theorem executions_concat_execute (moves : List Move) (e : Execution) :
    executions (moves ++ [.execute e]) = executions moves ++ [e] := by
  simp [executions, Move.executed?]

theorem executions_concat_of_none {m : Move} (h : m.executed? = none) (moves : List Move) :
    executions (moves ++ [m]) = executions moves := by
  simp [executions, h]

/-- An executed instruction has performed the operation that it names. -/
theorem Execution.exists_operation {e : Execution}
    (h : e.before.step = .ok (e.after, e.instruction.raw)) :
    ∃ o, e.operation? = some o ∧
      e.after = o.perform Edge.standard e.instruction e.before.advance := by
  obtain ⟨-, -, o, ho, -, hafter⟩ := (State.step_eq_ok_iff _ _ _).mp h
  exact ⟨o, ho, hafter⟩

namespace Rig

/-! ## Quiet changes -/

section

variable {ω τ : Type} [OfNat τ 0] [Sub τ]

@[simp] theorem state?_halt (host : Host ω τ) (s : Rig ω τ) (error : Option Failure) :
    (s.halt host error).machine.state? = s.machine.state? := by
  cases hlife : s.machine.life with
  | booting =>
    obtain ⟨journal, hhalt⟩ := s.halt_of_booting host error hlife
    rw [hhalt, s.machine.state?_of_booting (s.machine.status_of_booting hlife)]
    rfl
  | running g =>
    obtain ⟨journal, hhalt⟩ := s.halt_of_running host error hlife
    rw [hhalt]
    rfl
  | halted earlier => rw [s.halt_of_halted host error hlife]

theorem state?_act (host : Host ω τ) (s : Rig ω τ) (a : Action ω) :
    (s.act host a).machine.state? = s.machine.state? := by
  cases a with
  | affect f => rfl
  | stop => exact s.machine.state?_stop
  | halt error => exact s.state?_halt host error
  | trace =>
    unfold act
    cases s.machine.lastStep? with
    | none => rfl
    | some report =>
      obtain ⟨journal, hrecord⟩ := s.record_eq host report
      exact congrArg (fun u => u.machine.state?) hrecord

/-- An observer cannot touch the state. -/
theorem state?_notify (host : Host ω τ) (s : Rig ω τ) (i : Instruction) :
    (s.notify host i).1.machine.state? = s.machine.state? :=
  s.notify_preserves host (P := fun u => u.machine.state? = s.machine.state?) i rfl
    fun u a _ hu => (u.state?_act host a).trans hu

/-- What happens to a machine and its world without a move. Changes of the world from outside are
among those that `A` names. -/
inductive Quiet (host : Host ω τ) (A : (ω → ω) → Prop) (s : Rig ω τ) : Rig ω τ → Prop
  | clock : s.Quiet host A (s.readClock host).2
  | sleep (pause : τ) : s.Quiet host A { s with world := (host.sleep pause s.world).1 }
  | stop : s.Quiet host A { s with machine := s.machine.stop }
  | halt (error : Option Failure) : s.Quiet host A (s.halt host error)
  | sample : s.Quiet host A { s with machine := s.machine.sample (host.pressedKeys s.world) }
  | notify (i : Instruction) : s.Quiet host A (s.notify host i).1
  | affect {f : ω → ω} (hf : A f) : s.Quiet host A { s with world := f s.world }

namespace Quiet

variable {host : Host ω τ} {A : (ω → ω) → Prop} {s t : Rig ω τ}

theorem frame (h : s.Quiet host A t) :
    ∃ phase sampled journal,
      t.machine =
        { s.machine with phase := phase, sampled := sampled, journal := journal } := by
  cases h with
  | clock | sleep | affect => exact ⟨_, _, _, rfl⟩
  | stop =>
    obtain ⟨phase, hstop⟩ := s.machine.stop_frame
    exact ⟨phase, _, _, hstop⟩
  | halt error =>
    obtain ⟨phase, journal, hhalt⟩ := s.act_frame host (.halt error)
    exact ⟨phase, _, journal, hhalt⟩
  | sample =>
    obtain ⟨phase, hsample⟩ := s.machine.sample_frame (host.pressedKeys s.world)
    refine ⟨phase, Keypad.ofKeys (host.pressedKeys s.world), s.machine.journal, ?_⟩
    dsimp only
    exact hsample
  | notify i =>
    obtain ⟨phase, journal, hnotify⟩ := s.notify_frame host i
    exact ⟨phase, _, journal, hnotify⟩

/-- A quiet change reaches no more of the state than its keys. -/
theorem state?_map {α : Type} {φ : State → α}
    (hkeys : ∀ state codes, φ (state.press codes) = φ state) (h : s.Quiet host A t) : t.machine.state?.map φ = s.machine.state?.map φ := by
  cases h with
  | clock | sleep | affect => rfl
  | stop => rw [Machine.state?_stop]
  | halt error => rw [state?_halt]
  | sample =>
    rw [Machine.state?_sample, Option.map_map]
    refine Option.map_congr fun state _ => ?_
    show φ (if _ then state else state.press _) = φ state
    split
    · rfl
    · exact hkeys state _
  | notify i => rw [state?_notify]

end Quiet

end

section

variable {ω τ : Type} [OfNat τ 0] [Sub τ] [HasRates τ] (host : Host ω τ) {s : Rig ω τ}

end

/-! ## Courses -/

section

variable {ω τ : Type} [HasRates τ] (host : Host ω τ) {s : Rig ω τ}

/-- A machine that starts is at the start of its program. -/
theorem state?_boot (hlive : s.machine.status ≠ .halted) (hr : s.machine.refusal = none) :
    (s.boot host).1.machine.state? =
      some (State.start s.machine.config.seed s.machine.program) := by
  obtain ⟨journal, hboot⟩ := s.boot_of_accepted host hlive hr
  rw [hboot]
  rfl

/-- A start leaves the settings and the counts alone. -/
theorem boot_frame (hlive : s.machine.status ≠ .halted) (hr : s.machine.refusal = none) :
    ∃ phase journal,
      (s.boot host).1.machine = { s.machine with phase := phase, journal := journal } := by
  obtain ⟨journal, hboot⟩ := s.boot_of_accepted host hlive hr
  rw [hboot]
  exact ⟨_, journal, rfl⟩

omit [HasRates τ] in
theorem state?_lower {state : State} (h : s.machine.state? = some state) :
    (s.lower host).1.machine.state? = some state.tick := by
  rw [s.lower_eq host h]
  show (s.machine.mapState State.tick).state? = _
  rw [Machine.state?_mapState, h, Option.map_some]

omit [HasRates τ] in
/-- A tick leaves the settings alone and counts itself. -/
theorem lower_frame {state : State} (h : s.machine.state? = some state) :
    ∃ phase, (s.lower host).1.machine =
      { s.machine with phase := phase, ticks := s.machine.ticks + 1 } := by
  obtain ⟨phase, hframe⟩ := s.machine.mapState_frame State.tick
  rw [s.lower_eq host h]
  dsimp only
  rw [hframe]
  exact ⟨phase, rfl⟩

end

section

variable {ω τ : Type} [OfNat τ 0] [Sub τ] [HasRates τ]

/-- What a move does to a machine in its world. Whether the machine still runs is not asked, so
what is said of all courses is said of more than a machine goes through. -/
inductive Moves (host : Host ω τ) (s : Rig ω τ) : Move → Rig ω τ → Prop
  | start (hlive : s.machine.status ≠ .halted) (hr : s.machine.refusal = none) :
    s.Moves host .start (s.boot host).1
  | execute {before after : State} {word : UInt16} (hstate : s.machine.state? = some before)
    (hstep : before.step = .ok (after, word)) :
    s.Moves host (.execute ⟨before, ⟨word⟩, after⟩)
      { s with machine := s.machine.commit ⟨word⟩ after }
  | tick {before : State} (hstate : s.machine.state? = some before) :
    s.Moves host (.tick before) (s.lower host).1

/-- A rig is reached through these moves, and through quiet changes. -/
inductive Course (host : Host ω τ) (A : (ω → ω) → Prop) (s : Rig ω τ) :
    List Move → Rig ω τ → Prop
  | refl : s.Course host A [] s
  | quiet {moves : List Move} {t u : Rig ω τ} (hcourse : s.Course host A moves t)
    (hquiet : t.Quiet host A u) : s.Course host A moves u
  | move {moves : List Move} {t u : Rig ω τ} {m : Move} (hcourse : s.Course host A moves t)
    (hmove : t.Moves host m u) : s.Course host A (moves ++ [m]) u

namespace Course

variable {host : Host ω τ} {A : (ω → ω) → Prop} {s t : Rig ω τ} {moves : List Move}

/-- A course with a move in it passes that move. -/
theorem split {earlier later : List Move} {m : Move}
    (h : s.Course host A (earlier ++ m :: later) t) :
    ∃ u v, s.Course host A earlier u ∧ u.Moves host m v ∧ v.Course host A later t := by
  generalize hall : earlier ++ m :: later = moves at h
  induction h generalizing later with
  | refl => simp at hall
  | quiet _ hquiet ih =>
    obtain ⟨u, v, hu, hm, hv⟩ := ih hall
    exact ⟨u, v, hu, hm, hv.quiet hquiet⟩
  | @move moves _ _ m' hcourse hmove ih =>
    -- The move that is passed is the last one, or an earlier one.
    rcases List.eq_nil_or_concat' later with rfl | ⟨init, last, rfl⟩
    · obtain ⟨rfl, hlast⟩ := List.append_inj' hall rfl
      obtain rfl : m = m' := List.head_eq_of_cons_eq hlast
      exact ⟨_, _, hcourse, hmove, .refl⟩
    · have happend : (earlier ++ m :: init) ++ [last] = moves ++ [m'] := by
        simpa using hall
      obtain ⟨hinit, hlast⟩ := List.append_inj' happend rfl
      obtain rfl : last = m' := List.head_eq_of_cons_eq hlast
      obtain ⟨u, v, hu, hm, hv⟩ := ih hinit
      exact ⟨u, v, hu, hm, hv.move hmove⟩

/-! ## Settings and counts -/

theorem settings (h : s.Course host A moves t) :
    t.machine.program = s.machine.program ∧ t.machine.config = s.machine.config := by
  induction h with
  | refl => exact ⟨rfl, rfl⟩
  | quiet _ hquiet ih =>
    obtain ⟨_, _, _, hframe⟩ := hquiet.frame
    rw [hframe]
    exact ih
  | @move moves t u m _ hmove ih =>
    cases hmove with
    | start hlive hr =>
      obtain ⟨_, _, hframe⟩ := boot_frame host hlive hr
      rw [hframe]
      exact ih
    | @execute before after word _ _ =>
      obtain ⟨_, hframe⟩ := t.machine.mapState_frame fun _ => after
      unfold Machine.commit
      rw [hframe]
      exact ih
    | tick hstate =>
      obtain ⟨_, hframe⟩ := lower_frame host hstate
      rw [hframe]
      exact ih

/-- **The moves are all that a machine counts**: no instruction and no tick of a course is missing
from them, and none is invented. -/
theorem counts (h : s.Course host A moves t) :
    t.machine.cycles = s.machine.cycles + (executions moves).length ∧
      t.machine.ticks = s.machine.ticks + moves.countP Move.isTick := by
  induction h with
  | refl => exact ⟨rfl, rfl⟩
  | quiet _ hquiet ih =>
    obtain ⟨_, _, _, hframe⟩ := hquiet.frame
    rw [hframe]
    exact ih
  | @move moves t u m _ hmove ih =>
    obtain ⟨hcycles, hticks⟩ := ih
    rw [List.countP_append, ← Nat.add_assoc, ← hticks]
    cases hmove with
    | start hlive hr =>
      obtain ⟨_, _, hframe⟩ := boot_frame host hlive hr
      rw [hframe, executions_concat_of_none rfl, ← hcycles]
      exact ⟨rfl, rfl⟩
    | @execute before after word _ _ =>
      obtain ⟨_, hframe⟩ := t.machine.mapState_frame fun _ => after
      rw [executions_concat_execute, List.length_append, ← Nat.add_assoc, ← hcycles]
      unfold Machine.commit
      rw [hframe]
      exact ⟨rfl, rfl⟩
    | tick hstate =>
      obtain ⟨_, hframe⟩ := lower_frame host hstate
      rw [hframe, executions_concat_of_none rfl, ← hcycles]
      exact ⟨rfl, rfl⟩

/-! ## What the moves decide -/

/-- What no quiet change touches is what the moves make of it. -/
theorem fold {α : Type} {q : Rig ω τ → α} {f : α → Move → α}
    (hquiet : ∀ t u, t.Quiet host A u → q u = q t)
    (hmove : ∀ t m u, t.Moves host m u → q u = f (q t) m) (h : s.Course host A moves t) :
    q t = moves.foldl f (q s) := by
  induction h with
  | refl => rfl
  | quiet _ hq ih => rw [hquiet _ _ hq, ih]
  | move _ hm ih => rw [hmove _ _ _ hm, List.foldl_append, ih, List.foldl_cons, List.foldl_nil]

end Course

end

end Rig

/-- The moves change a part of the state as `f` says, and the keys are not in it. -/
structure Move.Tracks {α : Type} (φ : State → α) (f : α → Move → α) : Prop where
  press : ∀ state codes, φ (state.press codes) = φ state
  execute : ∀ e : Execution, e.before.step = .ok (e.after, e.instruction.raw) →
    φ e.after = f (φ e.before) (.execute e)
  tick : ∀ state, φ state.tick = f (φ state) (.tick state)

namespace Rig

section

variable {ω τ : Type} [OfNat τ 0] [Sub τ] [HasRates τ] {host : Host ω τ} {A : (ω → ω) → Prop}
  {s t : Rig ω τ} {moves : List Move}

namespace Course

/-- **What the moves since the last start decide**, of a machine that had not started. -/
theorem tracked {α : Type} {φ : State → α} {f : α → Move → α} (hφ : Move.Tracks φ f)
    (hs : s.machine.state? = none) (h : s.Course host A moves t) {state : State}
    (hstate : t.machine.state? = some state) :
    φ state =
      (sinceStart moves).foldl f
        (φ (State.start s.machine.config.seed s.machine.program)) := by
  induction h generalizing state with
  | refl =>
    rw [hs] at hstate
    cases hstate
  | @quiet moves t u hcourse hquiet ih =>
    have hpart := hquiet.state?_map hφ.press
    rw [hstate, Option.map_some, eq_comm, Option.map_eq_some_iff] at hpart
    obtain ⟨earlier, hearlier, heq⟩ := hpart
    rw [← heq]
    exact ih hearlier
  | @move moves t u m hcourse hmove ih =>
    cases hmove with
    | start hlive hr =>
      -- All that was tracked before is forgotten; what counts is the settings, which are kept.
      obtain ⟨hprogram, hconfig⟩ := hcourse.settings
      rw [state?_boot host hlive hr, hprogram, hconfig] at hstate
      cases hstate
      rw [sinceStart_concat_start]
      rfl
    | @execute before after word hbefore hstep =>
      rw [Machine.state?_commit, hbefore] at hstate
      cases hstate
      rw [sinceStart_concat rfl, List.foldl_append, ← ih hbefore]
      exact hφ.execute ⟨before, ⟨word⟩, after⟩ hstep
    | @tick before hbefore =>
      rw [state?_lower host hbefore] at hstate
      cases hstate
      rw [sinceStart_concat rfl, List.foldl_append, ← ih hbefore]
      exact hφ.tick before

/-- The same of the state that an instruction of the course was fetched from. -/
theorem tracked_before {α : Type} {φ : State → α} {f : α → Move → α} (hφ : Move.Tracks φ f)
    (hs : s.machine.state? = none) {earlier later : List Move} {e : Execution}
    (h : s.Course host A (earlier ++ .execute e :: later) t) :
    e.before.step = .ok (e.after, e.instruction.raw) ∧
      φ e.before =
        (sinceStart earlier).foldl f
          (φ (State.start s.machine.config.seed s.machine.program)) := by
  obtain ⟨u, v, hu, hmove, -⟩ := h.split
  cases hmove with
  | execute hbefore hstep => exact ⟨hstep, hu.tracked hφ hs hbefore⟩

end Course

end

end Rig

end Chip8
