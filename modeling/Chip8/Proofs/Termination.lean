/-
Chip8.Proofs.Termination — a run that is to stop after a number of
instructions ends, and with exactly that number.

The clock is `Host.Steady`: only sleeping passes time, and a sleep passes
what it is asked for. The observer asks for a stop once `n` instructions
have been executed, so `target n` are.

An iteration of the loop that does not end it makes its `debt` smaller
(`Fires.settles`), a triple in lexicographic order: an instruction lowers
the number of instructions to go, a sleep the number of sleeps until the
next instruction is due, and a tick the number of timer periods that have
passed since the last deadline. No ratio of the pause to the two periods
matters, and neither does starting again from the present.

The same step lemma says which beat of the interpreter the iteration
amounts to, so the run ends where the interpreter does
(`run_stops_exactly`).
-/
import Chip8.Proofs.Bursts
import Chip8.Proofs.Refinement
import Mathlib.Algebra.Order.Floor.Semiring
import Mathlib.Data.Prod.Lex
import Mathlib.Data.Rat.Floor
import Mathlib.Tactic.Linarith
import Mathlib.Tactic.NormNum

namespace Chip8

/-! ## The host -/

/-- Only sleeping passes time, and it passes as much as it is asked to and never asks for a stop;
every picture is received. -/
structure Host.Steady {ω : Type} (host : Host ω Rat) (time : ω → Rat) : Prop where
  shows : ∀ w, (host.clock w).1 = time w
  clock : ∀ w, time (host.clock w).2 = time w
  draw : ∀ picture w, (host.draw picture w).2 = none ∧ time (host.draw picture w).1 = time w
  sleep : ∀ pause w, (host.sleep pause w).2 = .ok false ∧
    time (host.sleep pause w).1 = time w + pause

/-- The number of instructions after which `Observer.stopAt` stops a new machine: it is told of the
first one, however low its count. -/
def target (n : Int) : Nat := (max n 1).toNat

theorem target_eq (n : Int) : (target n : Int) = max n 1 := by
  unfold target
  omega

theorem le_iff_target_le {n : Int} {k : Nat} (hk : 1 ≤ k) : n ≤ k ↔ target n ≤ k := by
  unfold target
  omega

theorem neverHalts_stopAt {ω : Type} (n : Int) :
    (Observer.stopAt n : Observer ω Rat).NeverHalts := by
  intro m i w error hmem
  unfold Observer.stopAt at hmem
  by_cases hn : n ≤ m.cycles
  · simp [hn] at hmem
  · simp [hn] at hmem

/-! ## Deadlines -/

namespace Pace

variable {period pause last now : Rat}

/-- A sleep brings an activity that is not due nearer to its deadline. -/
theorem ceil_lt_of_sleep (hpause : 0 < pause) (hundue : isDue last period now = false) :
    ⌈(period - (now + pause - last)) / pause⌉₊ < ⌈(period - (now - last)) / pause⌉₊ := by
  have hleft : 0 < (period - (now - last)) / pause := by
    have hnot : ¬ period ≤ now - last := of_decide_eq_false hundue
    exact div_pos (by linarith) hpause
  have hsleep : (period - (now + pause - last)) / pause = (period - (now - last)) / pause - 1 := by
    rw [← div_self hpause.ne', ← sub_div]
    congr 1
    ring
  rw [hsleep, Nat.lt_ceil]
  by_cases hlast : (period - (now - last)) / pause ≤ 1
  · rw [Nat.ceil_eq_zero.mpr (by linarith)]
    exact_mod_cast hleft
  · have hceil := Nat.ceil_lt_add_one
      (show 0 ≤ (period - (now - last)) / pause - 1 by linarith)
    linarith

/-- A firing takes at least one of the periods that have passed. -/
theorem floor_lt_of_firing (hperiod : 0 < period) (hdue : isDue last period now = true) :
    ⌊(now - next last period now) / period⌋₊ < ⌊(now - last) / period⌋₊ := by
  have hpassed : 1 ≤ (now - last) / period := by
    have hperiods : period ≤ now - last := of_decide_eq_true hdue
    rwa [le_div_iff₀ hperiod, one_mul]
  have hnext : (now - next last period now) / period ≤ (now - last) / period - 1 := by
    have hmoved := (next_spec hperiod hdue).1
    rw [← div_self hperiod.ne', ← sub_div]
    exact div_le_div_of_nonneg_right (by linarith) hperiod.le
  have hfloor := Nat.floor_mono hnext
  rw [Nat.floor_sub_one] at hfloor
  have hpositive := Nat.floor_pos.mpr hpassed
  omega

end Pace

/-! ## One iteration -/

namespace Rig

variable {ω : Type} {host : Host ω Rat} {time : ω → Rat} {n : Int} {s t : Rig ω Rat} {p : Progress}

/-- What the observer makes of an executed instruction. -/
theorem notify_stopAt (hobs : host.observer = Observer.stopAt n) (i : Instruction) :
    s.notify host i =
      (if n ≤ s.machine.cycles then { s with machine := s.machine.stop } else s, none) := by
  unfold notify
  rw [hobs]
  unfold Observer.stopAt
  by_cases hn : n ≤ s.machine.cycles
  · rw [if_pos hn, if_pos hn]
    rfl
  · rw [if_neg hn, if_neg hn]
    rfl

/-- A cycle that executes an instruction stops the machine exactly if that was the last one. -/
theorem cycle_stopAt (hobs : host.observer = Observer.stopAt n) (h : s.machine.Agrees p)
    (hrunning : s.machine.life = .running true) (hshort : p.executed.length < target n)
    {after : State} {word : UInt16}
    (hstep : (p.state.press (host.pressedKeys s.world)).step = .ok (after, word)) :
    ∃ t, s.cycle host = (t, none) ∧
      t.machine.Agrees (p.execute ⟨p.state.press (host.pressedKeys s.world), ⟨word⟩, after⟩) ∧
      (t.machine.life = .running false ∧ p.executed.length + 1 = target n ∨
        t.machine.life = .running true ∧ p.executed.length + 1 < target n) := by
  have hready := s.ready_of_running host hrunning
  obtain ⟨-, hagrees, -, -⟩ :=
    agrees_cycle (hobs ▸ neverHalts_stopAt n) h hready hstep
  obtain ⟨m, g, hm, -, hsampled, hseen⟩ := agrees_sampled h hready
  have hcycle : s.cycle host = notify host ⟨word⟩ ⟨m.commit ⟨word⟩ after, s.world⟩ := by
    rw [s.cycle_of_ready host hready hm hseen, hstep]
  have hlife : (m.commit ⟨word⟩ after).life = .running true := by
    rw [Machine.life_commit, ← hm, Machine.life_sample, hrunning]
  have hcount : (m.commit ⟨word⟩ after).cycles = p.executed.length + 1 := by
    have hcycles := hsampled.cycles
    rw [Progress.executed_press] at hcycles
    exact congrArg (· + 1) hcycles
  have hlast : n ≤ ((p.executed.length + 1 : Nat) : Int) ↔ target n ≤ p.executed.length + 1 :=
    le_iff_target_le (Nat.le_add_left 1 _)
  rw [notify_stopAt hobs, hcount] at hcycle
  rw [hcycle] at hagrees ⊢
  refine ⟨_, rfl, hagrees, ?_⟩
  by_cases hn : n ≤ ((p.executed.length + 1 : Nat) : Int)
  · have hreached := hlast.mp hn
    rw [if_pos hn]
    exact .inl ⟨by rw [Machine.life_stop, hlife]; rfl, by omega⟩
  · have hmore := mt hlast.mpr hn
    rw [if_neg hn]
    exact .inr ⟨hlife, by omega⟩

/-- A cycle is a beat: it fails where the interpreter does, and otherwise it executes one more
instruction. -/
theorem cycle_beat (hobs : host.observer = Observer.stopAt n) (h : s.machine.Agrees p)
    (hrunning : s.machine.life = .running true) (hshort : p.executed.length < target n)
    {failure : Option Failure} (hcycle : s.cycle host = (t, failure)) :
    (∃ f, failure = some (.fault f) ∧
      p.beat (.cycle (host.pressedKeys s.world)) = .error f ∧
      t.machine.cycles = p.executed.length) ∨
    ∃ q, failure = none ∧ p.beat (.cycle (host.pressedKeys s.world)) = .ok q ∧
      t.machine.Agrees q ∧ q.executed.length = p.executed.length + 1 ∧
      (t.machine.life = .running false ∧ q.executed.length = target n ∨
        t.machine.life = .running true ∧ q.executed.length < target n) := by
  cases hstep : (p.state.press (host.pressedKeys s.world)).step with
  | error f =>
    obtain ⟨hfailure, -, hcycles, -⟩ :=
      cycle_of_fault h (s.ready_of_running host hrunning) hstep
    rw [hcycle] at hfailure hcycles
    exact .inl ⟨f, hfailure, (Progress.beat_eq_error_iff ..).mpr ⟨_, rfl, hstep⟩, hcycles⟩
  | ok result =>
    obtain ⟨after, word⟩ := result
    obtain ⟨u, hu, hagrees, hlife⟩ := cycle_stopAt hobs h hrunning hshort hstep
    rw [hcycle] at hu
    cases hu
    have hone : ∀ e, (p.execute e).executed.length = p.executed.length + 1 := by
      intro e
      rw [Progress.executed_execute, List.length_append]
      rfl
    refine .inr ⟨_, rfl, ?_, hagrees, hone _, (hone _).symm ▸ hlife⟩
    exact (Progress.beat_eq_ok_iff ..).mpr (.inl ⟨_, after, word, rfl, hstep, rfl⟩)

/-- A tick of a running machine takes no time and does not fail. -/
theorem tick_steady (hsteady : host.Steady time) (h : s.machine.Agrees p)
    (hrunning : s.machine.life = .running true) :
    ∃ t, s.tick host = (t, none) ∧ time t.world = time s.world ∧ t.machine.Agrees p.tick ∧
      t.machine.life = .running true := by
  have hready := s.ready_of_running host hrunning
  obtain ⟨hfailure, hagrees, -⟩ := agrees_ticked h hready
  obtain ⟨state, -, htick⟩ := s.tick_of_ready host hready
  refine ⟨(s.tick host).1, Prod.ext rfl (hfailure.trans (hsteady.draw _ _).1), ?_, hagrees,
    s.life_tick host hrunning⟩
  rw [htick]
  exact (hsteady.draw _ _).2

end Rig

namespace Loop

variable {ω : Type} {host : Host ω Rat} {time : ω → Rat} {n : Int} {now : Rat} {l l' : Loop ω Rat}
  {p q : Progress}

/-- The loop goes on, its machine is where a run of the interpreter is, and there are instructions
to go. -/
structure Pending (n : Int) (l : Loop ω Rat) (p : Progress) : Prop where
  agrees : l.rig.machine.Agrees p
  running : l.rig.machine.life = .running true
  short : p.executed.length < target n

/-- What is left to do: the instructions to go, the sleeps until the next one is due, and the timer
periods that have passed. -/
def debt (time : ω → Rat) (n : Int) (l : Loop ω Rat) : ℕ ×ₗ ℕ ×ₗ ℕ :=
  let c := l.rig.machine.config
  toLex (target n - l.rig.machine.cycles,
    toLex (⌈(c.instructionPeriod - (time l.rig.world - l.lastInstruction)) / c.pause⌉₊,
      ⌊(time l.rig.world - l.lastTimer) / c.timerPeriod⌋₊))

/-- What an iteration can lead to from a given debt, and the beats that it amounts to. -/
inductive Settles (time : ω → Rat) (n : Int) (debt : ℕ ×ₗ ℕ ×ₗ ℕ) (p : Progress) :
    List Beat → Loop ω Rat × Option Failure → Prop
  /-- The instruction fails. -/
  | failed {codes : List Int} {f : Fault} {l' : Loop ω Rat}
      (beat : p.beat (.cycle codes) = .error f)
      (cycles : l'.rig.machine.cycles = p.executed.length) :
      Settles time n debt p [.cycle codes] (l', some (.fault f))
  /-- The last instruction is executed. -/
  | stopped {codes : List Int} {q : Progress} {l' : Loop ω Rat}
      (beat : p.beat (.cycle codes) = .ok q) (agrees : l'.rig.machine.Agrees q)
      (stop : l'.rig.machine.life = .running false) (reached : q.executed.length = target n) :
      Settles time n debt p [.cycle codes] (l', none)
  /-- There is less left to do. -/
  | pending {beats : List Beat} {q : Progress} {l' : Loop ω Rat} (play : p.play beats = .ok q)
      (pending : l'.Pending n q) (less : l'.debt time n < debt) :
      Settles time n debt p beats (l', none)

/-- The settings with which the debt goes down. -/
structure Paced (c : Config Rat) : Prop where
  instruction : 0 < c.instructionPeriod
  timer : 0 < c.timerPeriod
  pause : 0 < c.pause

/-- An instruction lowers the debt, whatever else happens. -/
theorem debt_lt_of_cycle (hcycles : l'.rig.machine.cycles = l.rig.machine.cycles + 1)
    (hmore : l.rig.machine.cycles < target n) : l'.debt time n < l.debt time n := by
  unfold debt
  rw [Prod.Lex.toLex_lt_toLex]
  exact .inl (by omega)

/-- A tick alone lowers the debt: it leaves the instructions as they are. -/
theorem debt_lt_of_tick (hpaced : Paced l.rig.machine.config) {v : Rig ω Rat}
    (hcycles : v.machine.cycles = l.rig.machine.cycles)
    (hconfig : v.machine.config = l.rig.machine.config) (htime : time v.world = time l.rig.world)
    (hdue : l.isDue (time l.rig.world) .timer = true) :
    (l.moved (time l.rig.world) v .timer).debt time n < l.debt time n := by
  have hfloor := Pace.floor_lt_of_firing hpaced.timer hdue
  unfold debt
  simp only [rig_moved, hcycles, hconfig, htime]
  rw [Prod.Lex.toLex_lt_toLex]
  refine .inr ⟨rfl, ?_⟩
  rw [Prod.Lex.toLex_lt_toLex]
  exact .inr ⟨rfl, hfloor⟩

/-- A sleep lowers the debt: the next instruction comes nearer. -/
theorem debt_lt_of_sleep (hpaced : Paced l.rig.machine.config) {w : ω}
    (htime : time w = time l.rig.world + l.rig.machine.config.pause)
    (hundue : l.isDue (time l.rig.world) .instruction = false) :
    debt time n { l with rig := ⟨l.rig.machine, w⟩ } < l.debt time n := by
  have hceil := Pace.ceil_lt_of_sleep hpaced.pause hundue
  unfold debt
  simp only [htime]
  rw [Prod.Lex.toLex_lt_toLex]
  refine .inr ⟨rfl, ?_⟩
  rw [Prod.Lex.toLex_lt_toLex]
  exact .inl hceil

/-- A sleep changes nothing but the world. -/
theorem idle_steady (hsteady : host.Steady time) (l : Loop ω Rat) :
    ∃ w, time w = time l.rig.world + l.rig.machine.config.pause ∧
      l.idle host = ({ l with rig := ⟨l.rig.machine, w⟩ }, none) := by
  obtain ⟨hanswer, htime⟩ := hsteady.sleep l.rig.machine.config.pause l.rig.world
  unfold idle
  rcases hsleep : host.sleep l.rig.machine.config.pause l.rig.world with ⟨w, answer⟩
  rw [hsleep] at hanswer htime
  obtain rfl : answer = .ok false := hanswer
  exact ⟨w, htime, rfl⟩

/-- **What an iteration does** while there are instructions to go: it makes the debt smaller, or it
is the last one. -/
theorem Fires.settles (hsteady : host.Steady time) (hobs : host.observer = Observer.stopAt n)
    (h : l.Pending n p) (hpaced : Paced l.rig.machine.config) {fired : List (Beat × Firing Rat)}
    {r : Loop ω Rat × Option Failure} (hfires : l.Fires host (time l.rig.world) fired r) :
    Settles time n (l.debt time n) p (fired.map Prod.fst) r := by
  have hcycles := h.agrees.cycles
  cases hfires with
  | failed due cycle =>
    rcases Rig.cycle_beat hobs h.agrees h.running h.short cycle with
      ⟨f, hf, hbeat, hcount⟩ | ⟨q, hnone, -⟩
    · cases hf
      exact .failed hbeat (by rw [rig_moved, hcount])
    · cases hnone
  | cycle due cycle rests =>
    rcases Rig.cycle_beat hobs h.agrees h.running h.short cycle with
      ⟨f, hf, -⟩ | ⟨q, -, hbeat, hagrees, hone, ⟨hlife, hreached⟩ | ⟨hlife, hshort⟩⟩
    · cases hf
    · exact .stopped hbeat hagrees hlife hreached
    · refine .pending ((p.play_singleton _).trans hbeat) ⟨hagrees, hlife, hshort⟩ ?_
      exact debt_lt_of_cycle (by rw [rig_moved, hagrees.cycles, hone, hcycles])
        (hcycles ▸ h.short)
  | @both u v failure due cycle goesOn timer tick =>
    rcases Rig.cycle_beat hobs h.agrees h.running h.short cycle with
      ⟨f, hf, -⟩ | ⟨q, -, hbeat, hagrees, hone, ⟨hlife, -⟩ | ⟨hlife, hshort⟩⟩
    · cases hf
    · rw [u.machine.goesOn_of_running hlife] at goesOn
      cases goesOn
    · obtain ⟨t, ht, -, hticked, hlife'⟩ := Rig.tick_steady hsteady hagrees hlife
      rw [tick] at ht
      cases ht
      refine .pending ?_ ⟨hticked, hlife', by rw [Progress.executed_tick]; exact hshort⟩ ?_
      · exact (Progress.play_cons_eq_ok_iff ..).mpr ⟨q, hbeat, q.play_singleton .tick⟩
      · refine debt_lt_of_cycle ?_ (hcycles ▸ h.short)
        rw [rig_moved, hticked.cycles, Progress.executed_tick, hone, hcycles]
  | @tick v failure undue goesOn timer tick =>
    obtain ⟨t, ht, htime, hticked, hlife⟩ := Rig.tick_steady hsteady h.agrees h.running
    rw [tick] at ht
    cases ht
    refine .pending (p.play_singleton .tick)
      ⟨hticked, hlife, by rw [Progress.executed_tick]; exact h.short⟩ ?_
    obtain ⟨hcount, -, hconfig⟩ := Rig.counts_of_tick h.running tick
    exact debt_lt_of_tick hpaced hcount hconfig htime timer
  | idle undue rests slept =>
    obtain ⟨w, htime, hidle⟩ := idle_steady hsteady l
    rw [hidle] at slept
    cases slept
    exact .pending rfl ⟨h.agrees, h.running, h.short⟩ (debt_lt_of_sleep hpaced htime undue)

/-- Reading the clock changes nothing of this. -/
theorem settles_iterate (hsteady : host.Steady time) (hobs : host.observer = Observer.stopAt n)
    (h : l.Pending n p) (hpaced : Paced l.rig.machine.config) :
    Settles time n (l.debt time n) p ((l.fired host).map Prod.fst) (l.iterate host) := by
  have hfires := fires_iterate host l
  have hnow : (l.rig.readClock host).1 = time (l.rig.readClock host).2.world :=
    (hsteady.shows _).trans (hsteady.clock _).symm
  have hdebt : debt time n { l with rig := (l.rig.readClock host).2 } = l.debt time n := by
    unfold debt
    simp only [Rig.readClock, hsteady.clock]
  have hpending : Pending n { l with rig := (l.rig.readClock host).2 } p :=
    ⟨h.agrees, h.running, h.short⟩
  rw [hnow] at hfires
  rw [← hdebt]
  exact Fires.settles hsteady hobs hpending hpaced hfires

/-! ## The loop -/

/-- How a run ends, and its beats: the last instruction has been executed, or one before it has
failed. Either way it is the last beat. -/
inductive Ends (n : Int) (p : Progress) : List Beat → Rig ω Rat → Option Failure → Prop
  | stopped {beats : List Beat} {codes : List Int} {q : Progress} {t : Rig ω Rat}
      (play : p.play (beats ++ [.cycle codes]) = .ok q) (state : t.machine.state? = some q.state)
      (cycles : t.machine.cycles = q.executed.length) (reached : q.executed.length = target n) :
      Ends n p (beats ++ [.cycle codes]) t none
  | failed {beats : List Beat} {codes : List Int} {q : Progress} {f : Fault} {t : Rig ω Rat}
      (play : p.play beats = .ok q) (beat : q.beat (.cycle codes) = .error f)
      (cycles : t.machine.cycles = q.executed.length) (short : q.executed.length < target n) :
      Ends n p (beats ++ [.cycle codes]) t (some (.fault f))

/-- An end remains one if more comes before. -/
theorem Ends.after {more beats : List Beat} {t : Rig ω Rat} {failure : Option Failure}
    (hplay : p.play more = .ok q) (h : Ends n q beats t failure) :
    Ends n p (more ++ beats) t failure := by
  cases h with
  | stopped play state cycles reached =>
    rw [← List.append_assoc]
    refine .stopped ?_ state cycles reached
    rw [List.append_assoc]
    exact (p.play_append_eq_ok_iff _ _ _).mpr ⟨q, hplay, play⟩
  | failed play beat cycles short =>
    rw [← List.append_assoc]
    exact .failed ((p.play_append_eq_ok_iff _ _ _).mpr ⟨q, hplay, play⟩) beat cycles short

/-- **A loop with instructions to go ends**, by induction on its debt. -/
theorem exists_ends (hsteady : host.Steady time) (hobs : host.observer = Observer.stopAt n)
    (l : Loop ω Rat) (p : Progress) (h : l.Pending n p) (hpaced : Paced l.rig.machine.config) :
    ∃ fuel t failure, l.finish host fuel = some (t, failure) ∧
      Ends n p ((l.firings host fuel).map Prod.fst) t failure := by
  induction hdebt : l.debt time n using WellFoundedLT.induction generalizing l p with
  | _ debt ih =>
    subst hdebt
    have hgo : l.rig.machine.goesOn = true := l.rig.machine.goesOn_of_running h.running
    have hsettles := settles_iterate hsteady hobs h hpaced
    have hfires := fires_iterate host l
    generalize hbeats : (l.fired host).map Prod.fst = beats at hsettles
    generalize hiterate : l.iterate host = r at hsettles hfires
    cases hsettles with
    | @failed codes f l' beat cycles =>
      refine ⟨1, l'.rig.halt host (some (.fault f)), some (.fault f), ?_, ?_⟩
      · rw [finish, if_pos hgo, hiterate]
      · rw [firings_of_failure host 0 hgo hiterate, hbeats]
        show Ends n p ([] ++ [.cycle codes]) _ _
        exact .failed rfl beat ((l'.rig.counts_halt host _).1.trans cycles) h.short
    | @stopped codes q l' beat agrees stop reached =>
      have hstopped : l'.rig.machine.goesOn = false := l'.rig.machine.goesOn_of_running stop
      have hstate := Machine.state?_of_agrees agrees stop
      obtain ⟨journal, hhalt⟩ := l'.rig.halt_of_running host none stop
      refine ⟨2, l'.rig.halt host none, none, ?_, ?_⟩
      · rw [finish, if_pos hgo, hiterate]
        simp only [finish, hstopped, Bool.false_eq_true, if_false]
      · rw [firings_of_success host 1 hgo hiterate, List.map_append, hbeats,
          firings_of_stopped host 1 (by rw [hstopped]; exact Bool.false_ne_true)]
        show Ends n p ([] ++ [.cycle codes]) _ _
        refine .stopped ((p.play_singleton _).trans beat) ?_ ?_ reached
        · rw [hhalt]
          exact hstate
        · exact (l'.rig.counts_halt host none).1.trans agrees.cycles
    | @pending _ q l' play pending less =>
      have hpaced' : Paced l'.rig.machine.config := (hfires.counts hgo).2.2 ▸ hpaced
      obtain ⟨fuel, t, failure, hfinish, hends⟩ := ih _ less l' q pending hpaced' rfl
      refine ⟨fuel + 1, t, failure, ?_, ?_⟩
      · rw [finish, if_pos hgo, hiterate]
        exact hfinish
      · rw [firings_of_success host fuel hgo hiterate, List.map_append, hbeats]
        exact hends.after play

end Loop

/-! ## The run -/

/-- The beats that a run goes through in at most `fuel` iterations. -/
def Rig.runBeats {ω : Type} (host : Host ω Rat) (fuel : Nat) (s : Rig ω Rat) : List Beat :=
  match s.ready host with
  | (_, some _) => []
  | (u, none) => ((u.enterLoop host).firings host fuel).map Prod.fst

section

variable {ω : Type} {host : Host ω Rat} {program : List UInt8} {config : Config Rat}
  {threshold : Level} {s : Rig ω Rat}

variable (host) in
/-- A machine whose seed is none does not start. -/
theorem Rig.ready_of_refusal (hnew : s.machine = Machine.new program config threshold)
    (hseed : Random.isSeed config.seed = false) :
    s.ready host = (s, some (.seedOutOfRange config.seed)) := by
  have hbooting : s.machine.life = .booting := by
    rw [hnew]
    rfl
  have hlive : s.machine.status ≠ .halted := by
    rw [hnew]
    exact Status.noConfusion
  have hrefusal : s.machine.refusal = some (.seedOutOfRange config.seed) := by
    rw [hnew]
    exact (Machine.refusal_eq_some_iff _ _).mpr (.inl ⟨by simp [Machine.new, hseed], rfl⟩)
  rw [s.ready_of_booting host hbooting, s.boot_of_refusal host hlive hrefusal]

variable (host) in
/-- A new machine that can start is pending when it enters its loop. -/
theorem Rig.exists_pending (n : Int) (hnew : s.machine = Machine.new program config threshold)
    (hseed : Random.isSeed config.seed = true) (hsize : program.length ≤ Memory.programLimit) :
    ∃ u, s.ready host = (u, none) ∧
      (u.enterLoop host).Pending n (Progress.start config.seed program) ∧
      u.machine.config = config := by
  have hbooting : s.machine.life = .booting := by
    rw [hnew]
    rfl
  have hagrees : s.machine.Agrees (Progress.start config.seed program) := by
    rw [hnew]
    exact Machine.agrees_new threshold hseed hsize
  obtain ⟨journal, hboot⟩ := s.boot_of_accepted host hagrees.live hagrees.accepted
  have hready : s.ready host = ((s.boot host).1, none) := by
    rw [s.ready_of_booting host hbooting, hboot]
    rfl
  obtain ⟨hu, -, -⟩ := agrees_ready host hagrees
  rw [hready] at hu
  refine ⟨(s.boot host).1, hready, ⟨hu, ?_, ?_⟩, ?_⟩
  · show (s.boot host).1.machine.life = _
    rw [hboot]
    rfl
  · show 0 < target n
    unfold target
    omega
  · rw [hboot]
    show s.machine.config = config
    rw [hnew]
    rfl

end

/-- A run goes on from where its first part has led to. -/
theorem Progress.play_append_of_ok {p q : Progress} {beats : List Beat}
    (hplay : p.play beats = .ok q) (more : List Beat) : p.play (beats ++ more) = q.play more := by
  unfold play at hplay ⊢
  rw [List.foldlM_append, hplay]
  rfl

theorem Rig.runBeats_of_ready {ω : Type} {host : Host ω Rat} {s u : Rig ω Rat}
    (hready : s.ready host = (u, none)) (fuel : Nat) :
    s.runBeats host fuel = ((u.enterLoop host).firings host fuel).map Prod.fst := by
  rw [runBeats, hready]

/-- A greater number of iterations never changes an answer. -/
theorem Rig.run_add {ω : Type} {host : Host ω Rat} {s : Rig ω Rat} {fuel : Nat}
    {r : Rig ω Rat × Option Failure} (hrun : s.run host fuel = some r) (more : Nat) :
    s.run host (fuel + more) = some r := by
  rcases hready : s.ready host with ⟨u, _ | e⟩
  · have hrates : u.machine.config.hasRates = true := rfl
    rw [s.run_of_ready host _ hready, if_pos hrates] at hrun ⊢
    exact (Loop.finish_add hrun more).1
  · rw [s.run_of_not_ready host _ hready] at hrun ⊢
    exact hrun

/-- **A run that is to stop after `n` instructions ends, with exactly that number.** Let only
sleeping pass time and every picture be received, let the program fit and both rates and the pause
be positive. Then the run of a new machine comes to an end, which no greater number of iterations
changes. A machine whose seed is none does not start.

If none of the instructions that it comes to fails, then it has executed `n` of them, but at least
one; it has halted without an error, and nothing was done after the last one. Otherwise it fails
with the fault of the first one that does, and those before that one are counted. -/
theorem Rig.run_stops_exactly {ω : Type} {host : Host ω Rat} {time : ω → Rat}
    (hsteady : host.Steady time) {n : Int} (hobs : host.observer = Observer.stopAt n)
    {program : List UInt8} (hsize : program.length ≤ Memory.programLimit) {config : Config Rat}
    (hinstruction : 0 < config.instructionRate) (htimer : 0 < config.timerRate)
    (hpause : 0 < config.pause) {threshold : Level} {s : Rig ω Rat}
    (hnew : s.machine = Machine.new program config threshold) :
    ∃ least t failure beats,
      (∀ fuel, least ≤ fuel →
        s.run host fuel = some (t, failure) ∧ s.runBeats host fuel = beats) ∧
      (Random.isSeed config.seed = false →
        failure = some (.seedOutOfRange config.seed) ∧ t = s) ∧
      (Random.isSeed config.seed = true →
        (∀ p, (Progress.start config.seed program).play beats = .ok p →
          failure = none ∧ t.Records none ∧ (t.machine.cycles : Int) = max n 1 ∧
          t.machine.cycles = p.executed.length ∧ t.machine.state? = some p.state ∧
          ∃ earlier codes, beats = earlier ++ [.cycle codes]) ∧
        ∀ f, (Progress.start config.seed program).play beats = .error f →
          failure = some (.fault f) ∧ t.Records (some (.fault f)) ∧
          (t.machine.cycles : Int) < max n 1 ∧
          ∃ earlier codes p, beats = earlier ++ [.cycle codes] ∧
            (Progress.start config.seed program).play earlier = .ok p ∧
            p.beat (.cycle codes) = .error f ∧ t.machine.cycles = p.executed.length) := by
  cases hseed : Random.isSeed config.seed with
  | false =>
    have hrefused := s.ready_of_refusal host hnew hseed
    refine ⟨0, s, some (.seedOutOfRange config.seed), [], fun fuel _ => ⟨?_, ?_⟩,
      fun _ => ⟨rfl, rfl⟩, fun htrue => absurd htrue Bool.false_ne_true⟩
    · exact s.run_of_not_ready host fuel hrefused
    · rw [runBeats, hrefused]
  | true =>
    obtain ⟨u, hready, hpending, hconfig⟩ := s.exists_pending host n hnew hseed hsize
    have hpaced : Loop.Paced (u.enterLoop host).rig.machine.config :=
      ⟨hconfig ▸ one_div_pos.mpr hinstruction, hconfig ▸ one_div_pos.mpr htimer, hconfig ▸ hpause⟩
    obtain ⟨least, t, failure, hfinish, hends⟩ :=
      Loop.exists_ends hsteady hobs _ _ hpending hpaced
    have hrecords : t.Records failure := records_of_life
      (Loop.finish_recorded (hobs ▸ neverHalts_stopAt n) least _ hpending.running hfinish)
    have hrun : ∀ fuel, least ≤ fuel → s.run host fuel = some (t, failure) ∧
        s.runBeats host fuel = ((u.enterLoop host).firings host least).map Prod.fst := by
      intro fuel hfuel
      obtain ⟨more, rfl⟩ := Nat.exists_eq_add_of_le hfuel
      obtain ⟨hsame, hfired⟩ := Loop.finish_add hfinish more
      have hrates : u.machine.config.hasRates = true := rfl
      rw [s.run_of_ready host _ hready, if_pos hrates, runBeats_of_ready hready, hsame, hfired]
      exact ⟨rfl, rfl⟩
    generalize ((u.enterLoop host).firings host least).map Prod.fst = beats at hends hrun
    refine ⟨least, t, failure, beats, hrun, fun hfalse => absurd hfalse.symm Bool.false_ne_true,
      fun _ => ?_⟩
    cases hends with
    | stopped play state cycles reached =>
      constructor
      · intro p hp
        obtain rfl : _ = p := Except.ok.inj (play.symm.trans hp)
        refine ⟨rfl, hrecords, ?_, cycles, state, _, _, rfl⟩
        rw [cycles, reached, target_eq]
      · intro f hf
        rw [play] at hf
        cases hf
    | @failed earlier codes q f _ play beat cycles short =>
      have hfails : (Progress.start config.seed program).play (earlier ++ [.cycle codes]) =
          .error f := by
        rw [Progress.play_append_of_ok play, Progress.play_singleton, beat]
      constructor
      · intro p hp
        rw [hfails] at hp
        cases hp
      · intro f' hf'
        obtain rfl : f = f' := Except.error.inj (hfails.symm.trans hf')
        refine ⟨rfl, hrecords, ?_, earlier, codes, q, rfl, play, beat, cycles⟩
        rw [cycles, ← target_eq]
        exact_mod_cast short

/-- The host with the exact clock, whose observer stops the machine after three instructions. -/
def Host.three : Host Rat Rat := { Host.exact with observer := Observer.stopAt 3 }

/-- The machine that jumps to itself ends after the third jump, well before forty iterations. -/
theorem Rig.stops_after_three :
    ∃ t, jumping.run Host.three 40 = some (t, none) ∧ t.Records none ∧ t.machine.cycles = 3 := by
  have hsteady : Host.three.Steady id :=
    ⟨fun _ => rfl, fun _ => rfl, fun _ _ => ⟨rfl, rfl⟩, fun _ _ => ⟨rfl, rfl⟩⟩
  have hended : (jumping.run Host.three 40).map (fun r => decide (r.2 = none)) = some true := by
    decide +kernel
  obtain ⟨⟨t, failure⟩, hrun, hnone⟩ := Option.map_eq_some_iff.mp hended
  obtain rfl : failure = none := of_decide_eq_true hnone
  obtain ⟨least, t', failure, beats, hall, -, hends⟩ := run_stops_exactly hsteady rfl
    (by decide) (by decide +kernel) (by decide +kernel) (by decide +kernel) (s := jumping) rfl
  obtain ⟨hcompleted, hfailed⟩ := hends (by decide)
  have hsame := (run_add hrun least).symm.trans (hall (40 + least) (Nat.le_add_left _ _)).1
  cases hsame
  cases hplay : (Progress.start Config.exact.seed [0x12, 0x00]).play beats with
  | ok p =>
    obtain ⟨-, hrecords, hcycles, -⟩ := hcompleted p hplay
    exact ⟨t, hrun, hrecords, by omega⟩
  | error f =>
    cases (hfailed f hplay).1

end Chip8
