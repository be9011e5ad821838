/-
Chip8.Proofs.KeyWait — a machine that waits for a key stands still.

FX0A is a loop of one instruction: the fetch moves past the word, and
without a key the operation moves back to it (`step_of_no_key`). What such a
cycle leaves behind is an empty keypad, and a tick lowers the timers, so the
state after any interleaving of both is a fold over the calls (`State.wait`)
that has a closed form (`foldl_wait`).

`Rig.Waits` is the invariant of the machine: it runs, its two copies of the
keys are equal, and the word at the program counter is FX0A. Without the
second part a key that is held could go unseen. A cycle without a key, a
tick and a change of the world keep it, unless the observer halts the machine
(`waits_answer`), and so does a history of these (`waits_answers`). The first
cycle with a key leaves it (`state?_cycle_of_key`).
-/
import Chip8.Proofs.Polling
import Chip8.Proofs.StraightLine
import Chip8.Proofs.Timers

namespace Chip8

/-! ## Keys -/

namespace Keypad

theorem ofKeys_of_no_key {codes : List Int} (h : ∀ k : Fin 16, (k.val : Int) ∉ codes) :
    ofKeys codes = none := by
  refine ext fun k => ?_
  rw [get_ofKeys, get_none]
  simpa using h k

theorem lowest?_none : none.lowest? = Option.none := by
  refine List.find?_eq_none.mpr fun k _ => ?_
  rw [get_none]
  exact Bool.false_ne_true

/-- The lowest held key is the one that no held key is below. -/
theorem lowest?_eq_some {p : Keypad} {k : Fin 16} (hk : p.get k = true)
    (hleast : ∀ j, p.get j = true → k ≤ j) : p.lowest? = some k := by
  unfold lowest?
  rw [List.find?_eq_some_iff_getElem]
  refine ⟨hk, k.val, by simp, by simp, fun j hj => ?_⟩
  rw [List.getElem_finRange]
  by_contra hheld
  have hle := hleast _ (by simpa using hheld)
  exact absurd (show k.val ≤ j from hle) (Nat.not_le.mpr hj)

end Keypad

/-! ## Waiting states -/

namespace State

/-- The word at the program counter is FX0A. -/
def AwaitsKey (s : State) (x : Fin 16) : Prop :=
  (s.wordAt s.pc.toNat).toNat = 0xF00A + 0x100 * x.val

variable {s : State} {x : Fin 16}

theorem awaitsKey_press (h : s.AwaitsKey x) (codes : List Int) : (s.press codes).AwaitsKey x := by
  unfold AwaitsKey wordAt at h ⊢
  rw [press_memory, press_pc]
  exact h

theorem awaitsKey_tick (h : s.AwaitsKey x) : s.tick.AwaitsKey x := h

/-- Behind the last byte of memory no word ends with 0x0A. -/
theorem pc_lt_of_awaitsKey (h : s.AwaitsKey x) : s.pc.toNat < 0xFFF := by
  unfold AwaitsKey at h
  rw [toNat_wordAt] at h
  by_contra hpc
  have hlow : s.memory.getD (s.pc.toNat + 1) 0 = 0 := by
    have hsize : s.memory.toArray.size = 4096 := s.memory.size_toArray
    unfold Vector.getD Array.getD
    rw [dif_neg (by omega)]
  rw [hlow] at h
  have hzero : (0 : UInt8).toNat = 0 := rfl
  omega

/-- An FX0A word names the wait for a key. -/
theorem firstMatch_waitKey (x : Fin 16) :
    firstMatch opcodeTable ((0xF00A + 0x100 * x.val : Nat) : Int) = some .waitKey := by
  revert x
  decide

theorem step_of_awaitsKey (h : s.AwaitsKey x) :
    s.step = .ok (s.advance.waitForKey x, s.wordAt s.pc.toNat) := by
  have hword : (s.wordAt s.pc.toNat).toNat = 0xF00A + 0x100 * x.val := h
  have hx : (Instruction.mk (s.wordAt s.pc.toNat)).x = x := by
    have hlt := x.isLt
    refine Fin.ext ?_
    show (s.wordAt s.pc.toNat).toNat / 256 % 16 = x.val
    omega
  have hnamed : firstMatch opcodeTable (s.wordAt s.pc.toNat).toNat = some .waitKey := by
    rw [hword]
    exact firstMatch_waitKey x
  refine (step_eq_ok_iff s _ _).mpr ⟨pc_lt_of_awaitsKey h, rfl, .waitKey, hnamed, rfl, ?_⟩
  rw [Operation.perform, hx]

/-- **Without a key the wait goes back to where it was.** -/
theorem step_of_no_key (h : s.AwaitsKey x) (hkeypad : s.keypad = Keypad.none) :
    s.step = .ok (s, s.wordAt s.pc.toNat) := by
  have hback : s.advance.waitForKey x = s := by
    have hlowest : s.advance.keypad.lowest? = none := by
      show s.keypad.lowest? = none
      rw [hkeypad, Keypad.lowest?_none]
    rw [waitForKey_eq, hlowest]
    show { s with pc := s.pc + 2 - 2 } = s
    rw [UInt16.add_sub_cancel]
  rw [step_of_awaitsKey h, hback]

/-- With a key the wait is over. -/
theorem step_of_key (h : s.AwaitsKey x) {k : Fin 16} (hk : s.keypad.get k = true)
    (hleast : ∀ j, s.keypad.get j = true → k ≤ j) :
    s.step = .ok (s.advance.setRegister x (UInt8.ofNat k.val), s.wordAt s.pc.toNat) := by
  have hlowest : s.advance.keypad.lowest? = some k := Keypad.lowest?_eq_some hk hleast
  rw [step_of_awaitsKey h, waitForKey_eq, hlowest]

end State

/-! ## Waiting through a history -/

/-- Whether a call is a tick. -/
def Call.isTick {ω : Type} : Call ω → Bool
  | .tick => true
  | _ => false

/-- What a call leaves of a state that waits while no key is held. -/
def State.wait {ω : Type} (s : State) : Call ω → State
  | .cycle => { s with keypad := Keypad.none }
  | .tick => s.tick
  | _ => s

/-- **The state after a wait**: the keypad is empty from the first cycle on, and the timers are
lowered by the number of ticks. -/
theorem State.foldl_wait {ω : Type} (calls : List (Call ω)) (s : State) :
    calls.foldl State.wait s =
      { s with
        keypad := if calls.any Call.isCycle then Keypad.none else s.keypad
        delayTimer := UInt8.ofNat (s.delayTimer.toNat - calls.countP Call.isTick)
        soundTimer := UInt8.ofNat (s.soundTimer.toNat - calls.countP Call.isTick) } := by
  have hlowered : ∀ (b : UInt8) (n : Nat),
      UInt8.ofNat ((countDown b).toNat - n) = UInt8.ofNat (b.toNat - (n + 1)) := by
    intro b n
    rw [Timer.toNat_countDown, Nat.sub_sub, Nat.add_comm]
  induction calls generalizing s with
  | nil =>
    simp
  | cons c rest ih =>
    rw [List.foldl_cons, ih]
    cases c with
    | cycle =>
      have hblank : (s.wait (.cycle : Call ω)).keypad = Keypad.none := rfl
      rw [hblank, ite_self]
      rfl
    | tick =>
      rw [List.countP_cons_of_pos rfl, ← hlowered, ← hlowered]
      rfl
    | boot | stop | halt error | run fuel | runDetached fuel | affect f => rfl

/-! ## Machines that wait -/

/-- The codes that the adapter answers with in a beat; in a tick it is not asked. -/
def Beat.codes : Beat → List Int
  | .cycle codes => codes
  | .tick => []

/-- The observer fails like this at some time, or the adapter does when it is handed a picture. -/
def Host.Brings {ω τ : Type} (host : Host ω τ) (e : Failure) : Prop :=
  (∃ m i w, (host.observer m i w).2 = some e) ∨ ∃ picture w, (host.draw picture w).2 = some e

namespace Rig

section

variable {ω τ : Type} [OfNat τ 0] [Sub τ] [HasRates τ] (host : Host ω τ) {s : Rig ω τ}
  {state : State}

/-- What a cycle leaves of a machine whose copies of the keys are equal, and whose step succeeds. It
halts and fails only through its observer. -/
theorem cycle_of_current (hrunning : s.machine.status = .running) (hcurrent : s.machine.Current)
    (hstate : s.machine.state? = some state) {after : State} {word : UInt16}
    (hstep : (state.press (host.pressedKeys s.world)).step = .ok (after, word)) :
    (s.cycle host).1.machine.state? = some after ∧ (s.cycle host).1.machine.Current ∧
      (s.cycle host).1.machine.cycles = s.machine.cycles + 1 ∧
      (host.observer.NeverHalts → (s.cycle host).1.machine.status = .running) ∧
      ∀ e, (s.cycle host).2 = some e → host.Brings e := by
  obtain ⟨g, hlife⟩ := s.machine.life_of_running hrunning
  have hready := s.ready_of_running host hlife
  obtain ⟨m, hm⟩ : ∃ m, s.machine.sample (host.pressedKeys s.world) = m := ⟨_, rfl⟩
  have hseen : m.state? = some (state.press (host.pressedKeys s.world)) := by
    rw [← hm]
    exact Machine.state?_sample_of_current hstate hcurrent _
  have hcycle : s.cycle host = notify host ⟨word⟩ ⟨m.commit ⟨word⟩ after, s.world⟩ := by
    rw [s.cycle_of_ready host hready hm hseen, hstep]
  refine ⟨?_, ?_, ?_, fun hobs => ?_, fun e he => ?_⟩
  · rw [hcycle, state?_notify, Machine.state?_commit, hseen]
    rfl
  · exact Machine.kept_current.cycle_of_sample host hready
      (Machine.current_sample hstate _ hcurrent)
  · obtain ⟨_, hsampled⟩ := s.machine.sample_frame (host.pressedKeys s.world)
    obtain ⟨_, hcommitted⟩ := m.mapState_frame fun _ => after
    obtain ⟨_, _, hnotified⟩ := notify_frame host ⟨m.commit ⟨word⟩ after, s.world⟩ ⟨word⟩
    rw [hcycle, hnotified]
    show (m.commit ⟨word⟩ after).cycles = _
    unfold Machine.commit
    rw [hcommitted, ← hm, hsampled]
  · have hbefore : (m.commit ⟨word⟩ after).life = .running g := by
      rw [Machine.life_commit, ← hm, Machine.life_sample, hlife]
    obtain ⟨g', hg'⟩ := Life.running_foldl_act _ (hobs (m.commit ⟨word⟩ after) ⟨word⟩ s.world) g
    rw [hcycle]
    refine Machine.status_of_running _ (g := g') ?_
    rw [life_notify, hbefore, hg']
  · rw [hcycle] at he
    exact .inl ⟨_, _, _, he⟩

/-- A running machine whose copies of the keys are equal waits in a state whose next word is
FX0A. -/
structure Waits (x : Fin 16) (state : State) (s : Rig ω τ) : Prop where
  running : s.machine.status = .running
  current : s.machine.Current
  inState : s.machine.state? = some state
  awaits : state.AwaitsKey x

variable {x : Fin 16}

/-- A cycle without a key empties the keypad and leaves all else as it is. -/
theorem waits_cycle (h : s.Waits x state)
    (hsilent : ∀ k : Fin 16, (k.val : Int) ∉ host.pressedKeys s.world) :
    ((s.cycle host).1.Waits x (state.wait (.cycle : Call ω)) ∨
        (s.cycle host).1.machine.status = .halted ∧ ¬ host.observer.NeverHalts) ∧
      (s.cycle host).1.machine.cycles = s.machine.cycles + 1 ∧
      ∀ e, (s.cycle host).2 = some e → host.Brings e := by
  have hawaits := State.awaitsKey_press h.awaits (host.pressedKeys s.world)
  have hstep := State.step_of_no_key hawaits (Keypad.ofKeys_of_no_key hsilent)
  obtain ⟨hstate, hcurrent, hcycles, hruns, hfails⟩ :=
    s.cycle_of_current host h.running h.current h.inState hstep
  have hempty : state.press (host.pressedKeys s.world) = state.wait (.cycle : Call ω) := by
    unfold State.wait State.press
    rw [Keypad.ofKeys_of_no_key hsilent]
  rw [hempty] at hstate hawaits
  refine ⟨?_, hcycles, hfails⟩
  by_cases hrunning : (s.cycle host).1.machine.status = .running
  · exact .inl ⟨hrunning, hcurrent, hstate, hawaits⟩
  · refine .inr ⟨?_, fun hobs => hrunning (hruns hobs)⟩
    cases hstatus : (s.cycle host).1.machine.status with
    | booting =>
      rw [Machine.state?_of_booting _ hstatus] at hstate
      cases hstate
    | running => exact absurd hstatus hrunning
    | halted => rfl

/-- The first cycle with a key ends the wait. -/
theorem state?_cycle_of_key (h : s.Waits x state) {k : Fin 16}
    (hk : (k.val : Int) ∈ host.pressedKeys s.world)
    (hleast : ∀ j : Fin 16, (j.val : Int) ∈ host.pressedKeys s.world → k ≤ j) :
    (s.cycle host).1.machine.state? =
      some ((state.press (host.pressedKeys s.world)).advance.setRegister x
        (UInt8.ofNat k.val)) := by
  have hheld : ∀ j : Fin 16, (state.press (host.pressedKeys s.world)).keypad.get j = true ↔
      (j.val : Int) ∈ host.pressedKeys s.world := fun j => by
    show (Keypad.ofKeys _).get j = true ↔ _
    rw [Keypad.get_ofKeys, List.contains_iff_mem]
  have hstep := State.step_of_key (State.awaitsKey_press h.awaits _) ((hheld k).mpr hk)
    fun j hj => hleast j ((hheld j).mp hj)
  exact (s.cycle_of_current host h.running h.current h.inState hstep).1

omit [OfNat τ 0] [Sub τ] in
/-- A tick lowers the timers and leaves all else as it is. -/
theorem waits_tick (h : s.Waits x state) :
    (s.tick host).1.Waits x (state.wait (.tick : Call ω)) ∧
      (s.tick host).1.machine.cycles = s.machine.cycles ∧
      ∀ e, (s.tick host).2 = some e → host.Brings e := by
  obtain ⟨g, hlife⟩ := s.machine.life_of_running h.running
  obtain ⟨state', hstate', htick⟩ := s.tick_of_ready host (s.ready_of_running host hlife)
  obtain rfl : state = state' := Option.some.inj (h.inState.symm.trans hstate')
  have hresult : s.tick host = ((s.tick host).1, (s.tick host).2) := rfl
  obtain ⟨hcycles, -⟩ := counts_of_tick hlife hresult
  have hafter : (s.machine.mapState State.tick).state? = some state.tick := by
    rw [Machine.state?_mapState, h.inState]
    rfl
  refine ⟨⟨Machine.status_of_running _ (s.life_tick host hlife), ?_, ?_, ?_⟩, hcycles, ?_⟩
  · rw [htick]
    exact Machine.kept_current.tick s.machine h.current
  · rw [htick]
    exact hafter
  · exact State.awaitsKey_tick h.awaits
  · intro e he
    rw [htick] at he
    exact .inr ⟨_, _, he⟩

end

section

variable {ω τ : Type} [OfNat τ 0] [OfNat τ 1] [OfNat τ 4] [Add τ] [Sub τ] [Mul τ] [Div τ]
  [LE τ] [DecidableLE τ] [HasRates τ] (host : Host ω τ) {s : Rig ω τ} {x : Fin 16} {state : State}

/-- **What one call keeps** of a machine that waits, if no key is held. -/
theorem waits_answer (h : s.Waits x state) {c : Call ω} (hplain : c.Plain)
    (hsilent : ∀ b ∈ s.beatsOf host c, ∀ k : Fin 16, (k.val : Int) ∉ b.codes) :
    ∃ t failure, s.answer host c = some (t, failure) ∧
      (t.Waits x (state.wait c) ∨
        t.machine.status = .halted ∧ ¬ host.observer.NeverHalts) ∧
      t.machine.cycles = s.machine.cycles + [c].countP Call.isCycle ∧
      ∀ e, failure = some e → host.Brings e := by
  cases hplain with
  | cycle =>
    obtain ⟨g, hlife⟩ := s.machine.life_of_running h.running
    rw [beatsOf_cycle (s.ready_of_running host hlife)] at hsilent
    obtain ⟨hwaits, hcycles, hfails⟩ :=
      waits_cycle host h (hsilent _ (List.mem_singleton.mpr rfl))
    exact ⟨_, _, rfl, hwaits, hcycles, hfails⟩
  | tick =>
    obtain ⟨hwaits, hcycles, hfails⟩ := waits_tick host h
    exact ⟨_, _, rfl, .inl hwaits, hcycles, hfails⟩
  | affect f =>
    refine ⟨_, none, rfl, .inl ⟨h.running, h.current, h.inState, h.awaits⟩, rfl, ?_⟩
    intro e he
    cases he

/-- **What a history keeps** of a machine that waits, by induction on its calls. -/
theorem waits_answers {calls : List (Call ω)} (hplain : ∀ c ∈ calls, c.Plain)
    (h : s.Waits x state)
    (hsilent : ∀ b ∈ s.beats host calls, ∀ k : Fin 16, (k.val : Int) ∉ b.codes) :
    ∃ t failures, s.answers host calls = some (t, failures) ∧
      ((t.Waits x (calls.foldl State.wait state) ∧
          t.machine.cycles = s.machine.cycles + calls.countP Call.isCycle ∧
          ∀ e, some e ∈ failures → host.Brings e) ∨
        t.machine.status = .halted ∧ ¬ host.observer.NeverHalts) := by
  induction calls generalizing s state with
  | nil => exact ⟨s, [], rfl, .inl ⟨h, rfl, fun e he => absurd he List.not_mem_nil⟩⟩
  | cons c rest ih =>
    have hrest : ∀ c' ∈ rest, c'.Plain := fun c' hc' => hplain c' (List.mem_cons_of_mem c hc')
    unfold beats at hsilent
    obtain ⟨u, failure, hu, hwaits, hcycles, hfails⟩ := waits_answer host h
      (hplain c List.mem_cons_self) fun b hb => hsilent b (List.mem_append_left _ hb)
    have hafter : s.after host c = some u := by
      rw [← s.map_answer host c, hu]
      rfl
    rw [hafter] at hsilent
    rcases hwaits with hwaits | ⟨hhalted, hobs⟩
    · obtain ⟨t, failures, ht, hend⟩ :=
        ih hrest hwaits fun b hb => hsilent b (List.mem_append_right _ hb)
      refine ⟨t, failure :: failures, ?_, ?_⟩
      · unfold answers
        rw [hu, Option.bind_some, ht]
        rfl
      · refine hend.imp_left ?_
        rintro ⟨hwaited, hcounted, hbrings⟩
        refine ⟨hwaited, ?_, ?_⟩
        · rw [hcounted, hcycles, Nat.add_assoc, ← List.countP_append]
          rfl
        · intro e he
          rcases List.mem_cons.mp he with heq | hlater
          · exact hfails e heq.symm
          · exact hbrings e hlater
    · -- Once the observer has halted the machine it stays halted.
      obtain ⟨t, ht⟩ := exists_afterAll_of_plain host u hrest
      have hanswers := u.map_answers host rest
      rw [ht] at hanswers
      obtain ⟨⟨_, failures⟩, hfailures, rfl⟩ := Option.map_eq_some_iff.mp hanswers
      refine ⟨_, failure :: failures, ?_, .inr ⟨halted_afterAll host hhalted ht, hobs⟩⟩
      unfold answers
      rw [hu, Option.bind_some, hfailures]
      rfl

/-- A machine that was booted at most once before the given calls has equal copies of the keys. -/
theorem current_of_one_boot {s t : Rig ω τ} {program : List UInt8} {config : Config τ}
    {threshold : Level} (hnew : s.machine = Machine.new program config threshold)
    {start calls : List (Call ω)} (hstart : start = [] ∨ start = [.boot])
    (hboot : Call.boot ∉ calls) (ht : s.afterAll host (start ++ calls) = some t) :
    t.machine.Current := by
  have hcurrent : s.machine.Current := by
    rw [hnew]
    rfl
  rcases hstart with rfl | rfl
  · exact current_afterAll host hboot hcurrent ht
  · have hbooting : s.machine.status = .booting := by
      rw [hnew]
      rfl
    have hbooted : (s.boot host).1.machine.Current :=
      Kept.boot (P := fun u => u.machine.Current) hcurrent fun _ hr =>
        Machine.kept_current.startedUp host hbooting hr hcurrent
    exact current_afterAll host hboot hbooted ht

/-- **A wait for a key stands still.** A machine is new, is booted once at most, and runs after some
calls; the word at its program counter is FX0A. Then come cycles, one at least, in none of which the
adapter answers with a key, with ticks and changes of the world in between. The machine runs on,
unless its observer halts it, and nothing fails but what the observer or the adapter makes fail. The
state is as before, with no key held and the timers lowered by the number of ticks; the cycles are
counted. The next cycle in which the adapter answers with a key puts the smallest one into VX and
moves past the word; otherwise it changes just the keypad. -/
theorem key_wait_stands_still {s t : Rig ω τ} {program : List UInt8} {config : Config τ}
    {threshold : Level} (hnew : s.machine = Machine.new program config threshold)
    {start calls waits : List (Call ω)} (hstart : start = [] ∨ start = [.boot])
    (hboot : Call.boot ∉ calls) (ht : s.afterAll host (start ++ calls) = some t)
    (hrunning : t.machine.status = .running) {state : State}
    (hstate : t.machine.state? = some state) {x : Fin 16}
    (hword : (state.wordAt state.pc.toNat).toNat = 0xF00A + 0x100 * x.val)
    (hplain : ∀ c ∈ waits, c.Plain) (hcycle : Call.cycle ∈ waits)
    (hsilent : ∀ b ∈ t.beats host waits, ∀ k : Fin 16, (k.val : Int) ∉ b.codes) :
    ∃ u failures waited, t.answers host waits = some (u, failures) ∧
      waited = { state with
        keypad := Keypad.none
        delayTimer := UInt8.ofNat (state.delayTimer.toNat - waits.countP Call.isTick)
        soundTimer := UInt8.ofNat (state.soundTimer.toNat - waits.countP Call.isTick) } ∧
      (host.observer.NeverHalts → u.machine.status = .running) ∧
      (u.machine.status = .running →
        u.machine.state? = some waited ∧
        u.machine.cycles = t.machine.cycles + waits.countP Call.isCycle ∧
        (∀ e, some e ∈ failures → host.Brings e) ∧
        ∀ k : Fin 16, (k.val : Int) ∈ host.pressedKeys u.world →
          (∀ j : Fin 16, (j.val : Int) ∈ host.pressedKeys u.world → k ≤ j) →
          (u.cycle host).1.machine.state? = some
            { waited.setRegister x (UInt8.ofNat k.val) with
              pc := state.pc + 2
              keypad := Keypad.ofKeys (host.pressedKeys u.world) }) := by
  have hwaits : t.Waits x state :=
    ⟨hrunning, current_of_one_boot host hnew hstart hboot ht, hstate, hword⟩
  have hany : waits.any Call.isCycle = true := List.any_eq_true.mpr ⟨.cycle, hcycle, rfl⟩
  have hfold := State.foldl_wait waits state
  rw [if_pos hany] at hfold
  obtain ⟨u, failures, hu, hend⟩ := waits_answers host hplain hwaits hsilent
  refine ⟨u, failures, _, hu, hfold, fun hobs => ?_, fun hruns => ?_⟩
  · rcases hend with ⟨hwaited, -⟩ | ⟨-, hhalts⟩
    · exact hwaited.running
    · exact absurd hobs hhalts
  · rcases hend with ⟨hwaited, hcycles, hfails⟩ | ⟨hhalted, -⟩
    · refine ⟨hwaited.inState, hcycles, hfails, fun k hk hleast => ?_⟩
      rw [state?_cycle_of_key host hwaited hk hleast, hfold]
      rfl
    · rw [hruns] at hhalted
      cases hhalted

end

/-- A machine that sets the delay timer to two and waits for a key, of which none is held. -/
def expecting : Rig (List Int) Rat :=
  ⟨Machine.new [0x60, 0x02, 0xF0, 0x15, 0xF3, 0x0A] Config.exact .info, []⟩

/-- It waits for two cycles, the second with codes that are no keys, while three ticks run the timer
out. Of the keys 9 and 5 that are held then the smaller one goes to V3. -/
theorem key_wait_then_five :
    ∃ t u after,
      expecting.afterAll Host.holding ([.boot] ++ [.cycle, .cycle]) = some t ∧
      t.afterAll Host.holding
        [.cycle, .tick, .affect fun _ => [16, -1], .cycle, .tick, .tick, .affect fun _ => [9, 5]] =
        some u ∧
      u.machine.status = .running ∧ u.machine.cycles = t.machine.cycles + 2 ∧
      (u.cycle Host.holding).1.machine.state? = some after ∧
      after.register 3 = 5 ∧ after.pc = 0x206 ∧ after.delayTimer = 0 := by
  obtain ⟨waits, hwaits⟩ : ∃ waits : List (Call (List Int)), waits =
      [.cycle, .tick, .affect fun _ => [16, -1], .cycle, .tick, .tick, .affect fun _ => [9, 5]] :=
    ⟨_, rfl⟩
  rw [← hwaits]
  -- What the calls before the wait lead to, and the codes and keys in it and after it.
  have hview : ((expecting.afterAll Host.holding ([.boot] ++ [.cycle, .cycle])).bind fun t =>
      t.machine.state?.map fun state =>
        (t.machine.status, state.pc, state.delayTimer, (state.wordAt state.pc.toNat).toNat)) =
      some (.running, 0x204, 2, 0xF30A) := by
    decide +kernel
  have hsilent : ((expecting.afterAll Host.holding ([.boot] ++ [.cycle, .cycle])).map fun t =>
      decide (∀ b ∈ t.beats Host.holding waits, ∀ k : Fin 16, (k.val : Int) ∉ b.codes)) =
      some true := by
    rw [hwaits]
    decide +kernel
  have hworld : ((expecting.afterAll Host.holding ([.boot] ++ [.cycle, .cycle])).bind fun t =>
      (t.afterAll Host.holding waits).map fun u => u.world) = some [9, 5] := by
    rw [hwaits]
    decide +kernel
  obtain ⟨t, ht, hview⟩ := Option.bind_eq_some_iff.mp hview
  obtain ⟨state, hstate, hview⟩ := Option.map_eq_some_iff.mp hview
  obtain ⟨hrunning, hpc, hdelay, hword⟩ : t.machine.status = .running ∧ state.pc = 0x204 ∧
      state.delayTimer = 2 ∧ (state.wordAt state.pc.toNat).toNat = 0xF30A := by
    simpa using hview
  rw [ht] at hsilent hworld
  have hnone : ∀ b ∈ t.beats Host.holding waits, ∀ k : Fin 16, (k.val : Int) ∉ b.codes :=
    of_decide_eq_true (Option.some.inj hsilent)
  have hplain : ∀ c ∈ waits, c.Plain := by
    rw [hwaits]
    intro c hc
    simp only [List.mem_cons, List.not_mem_nil, or_false] at hc
    rcases hc with rfl | rfl | rfl | rfl | rfl | rfl | rfl
    · exact .cycle
    · exact .tick
    · exact .affect _
    · exact .cycle
    · exact .tick
    · exact .tick
    · exact .affect _
  obtain ⟨u, failures, waited, hu, hwaited, hgoes, hend⟩ :=
    key_wait_stands_still Host.holding (s := expecting) (x := 3) rfl (.inr rfl) (by simp) ht
      hrunning hstate hword hplain (by rw [hwaits]; exact List.mem_cons_self) hnone
  have hruns := hgoes fun m i w error => List.not_mem_nil
  obtain ⟨-, hcycles, -, hkey⟩ := hend hruns
  have hafter : t.afterAll Host.holding waits = some u := by
    rw [← t.map_answers Host.holding waits, hu]
    rfl
  have hkeys : Host.holding.pressedKeys u.world = [9, 5] := by
    rw [Option.bind_some, hafter] at hworld
    exact Option.some.inj hworld
  rw [hkeys] at hkey
  have hfive := hkey 5 (by decide) (by decide)
  refine ⟨t, u, _, ht, hafter, hruns, ?_, hfive, ?_, ?_, ?_⟩
  · rw [hcycles, hwaits]
    rfl
  · exact (waited.register_setRegister 3 3 _).trans (if_pos rfl)
  · show state.pc + 2 = 0x206
    rw [hpc]
    rfl
  · show waited.delayTimer = 0
    rw [hwaited, hwaits]
    show UInt8.ofNat (state.delayTimer.toNat - 3) = 0
    rw [hdelay]
    rfl

end Rig

end Chip8
