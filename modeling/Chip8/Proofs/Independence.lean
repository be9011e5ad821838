/-
Chip8.Proofs.Independence — a program that never asks for the time or for
keys does not depend on them.

Two runs are compared by what a function leaves of their states.
`State.core` drops both timers and the keys, `State.muted` the timer of
the buzzer alone. Each of them blanks only what no fetch and no guard
looks at (`State.Blanks`), so states that it does not tell apart read the
same word and are refused for the same reason (`Blanks.step_error`), and
if the operation respects it (`Operation.Respects`), they go on alike
(`Blanks.step_ok`).

No operation reads the timer of the buzzer, and four operations read the
delay timer or the keys (`Operation.readsInput`). The others respect
`core`: `play_of_like` compares two runs that tick at different times and
have different keys held, by recursion on both lists of beats at once.

Runs are those of the interpreter. That the cycles and ticks of a machine
amount to such a run is the subject of `Chip8.Proofs.Refinement`.
-/
import Chip8.Proofs.ControlFlow
import Chip8.Proofs.Interpreter

namespace Chip8

/-! ## What is left of a state -/

namespace State

/-- A state without its timers and keys. -/
def core (s : State) : State :=
  { s with delayTimer := 0, soundTimer := 0, keypad := Keypad.none }

/-- A state without the timer of the buzzer. -/
def muted (s : State) : State := { s with soundTimer := 0 }

@[simp] theorem core_press (s : State) (codes : List Int) : (s.press codes).core = s.core := by
  unfold press core
  rfl

@[simp] theorem core_tick (s : State) : s.tick.core = s.core := rfl

@[simp] theorem muted_press (s : State) (codes : List Int) :
    (s.press codes).muted = s.muted.press codes := by
  unfold press
  rfl

/-- What a tick leaves but for the timer of the buzzer does not depend on that timer. -/
theorem muted_tick (s : State) : s.tick.muted = s.muted.tick.muted := rfl

/-- States with the same core differ in their timers and keys at most. -/
theorem eq_of_core {s t : State} (h : s.core = t.core) :
    t = { s with
      delayTimer := t.delayTimer
      soundTimer := t.soundTimer
      keypad := t.keypad } := by
  cases s
  cases t
  simp only [core, mk.injEq] at h ⊢
  grind

theorem eq_of_muted {s t : State} (h : s.muted = t.muted) :
    t = { s with soundTimer := t.soundTimer } := by
  cases s
  cases t
  simp only [muted, mk.injEq] at h ⊢
  grind

/-- A function of states that blanks nothing that a fetch or a guard looks at. -/
structure Blanks (φ : State → State) : Prop where
  pc : ∀ s, (φ s).pc = s.pc
  memory : ∀ s, (φ s).memory = s.memory
  stack : ∀ s, (φ s).stack = s.stack
  index : ∀ s, (φ s).index = s.index
  advance : ∀ s, φ s.advance = (φ s).advance

theorem blanks_core : Blanks core := ⟨fun _ => rfl, fun _ => rfl, fun _ => rfl, fun _ => rfl,
  fun _ => rfl⟩

theorem blanks_muted : Blanks muted := ⟨fun _ => rfl, fun _ => rfl, fun _ => rfl, fun _ => rfl,
  fun _ => rfl⟩

end State

/-! ## Operations -/

namespace Operation

/-- Whether an operation reads the delay timer or the keys: EX9E, EXA1, FX07 and FX0A do. -/
def readsInput : Operation → Bool
  | .skipKeyPressed | .skipKeyNotPressed | .readDelayTimer | .waitKey => true
  | _ => false

/-- What the function leaves of a state decides what it leaves of the state after the operation. -/
def Respects (φ : State → State) (o : Operation) : Prop :=
  ∀ i s, φ (o.perform Edge.standard i s) = φ (o.perform Edge.standard i (φ s))

/-- An operation that reads neither timer nor keys does not need them. -/
theorem respects_core {o : Operation} (h : o.readsInput = false) : o.Respects State.core := by
  intro i s
  cases o with
  | skipKeyPressed | skipKeyNotPressed | readDelayTimer | waitKey => cases h
  | skipEqImmediate | skipNeImmediate | skipEqRegister | skipNeRegister =>
    simp only [perform, State.skipIf_eq]
    rfl
  | _ => rfl

/-- No operation needs the timer of the buzzer. -/
theorem respects_muted (o : Operation) : o.Respects State.muted := by
  intro i s
  cases o with
  | skipEqImmediate | skipNeImmediate | skipEqRegister | skipNeRegister | skipKeyPressed
  | skipKeyNotPressed =>
    simp only [perform, State.skipIf_eq]
    rfl
  | waitKey =>
    have hkeys : s.muted.keypad = s.keypad := rfl
    simp only [perform, State.waitForKey_eq, hkeys]
    cases s.keypad.lowest? with
    | none => rfl
    | some key => rfl
  | _ => rfl

/-- A guard looks at the stack and at the address register. -/
theorem permit_congr (o : Operation) (i : Instruction) {s t : State} (hstack : s.stack = t.stack)
    (hindex : s.index = t.index) : o.permit i s = o.permit i t := by
  cases o <;> simp [permit, hstack, hindex]

end Operation

/-! ## Steps -/

namespace State.Blanks

variable {φ : State → State} (hφ : Blanks φ) {s t : State} (h : φ s = φ t)

include hφ h

theorem eq_pc : s.pc = t.pc := by
  rw [← hφ.pc s, h, hφ.pc]

theorem eq_wordAt (a : Nat) : s.wordAt a = t.wordAt a := by
  unfold wordAt
  rw [← hφ.memory s, h, hφ.memory]

theorem eq_advance : φ s.advance = φ t.advance := by
  rw [hφ.advance, h, hφ.advance]

theorem eq_permit (o : Operation) (i : Instruction) : o.permit i s = o.permit i t :=
  o.permit_congr i (by rw [← hφ.stack s, h, hφ.stack]) (by rw [← hφ.index s, h, hφ.index])

/-- States that cannot be told apart make the same step. -/
theorem step_ok {s' : State} {word : UInt16} (hstep : s.step = .ok (s', word))
    (hrespects : ∀ o, firstMatch opcodeTable word.toNat = some o → o.Respects φ) :
    ∃ t', t.step = .ok (t', word) ∧ φ s' = φ t' := by
  obtain ⟨hpc, rfl, o, ho, hpermit, rfl⟩ := (step_eq_ok_iff s s' word).mp hstep
  have hadvance := hφ.eq_advance h
  rw [hφ.eq_permit hadvance] at hpermit
  rw [hφ.eq_pc h] at hpc
  refine ⟨_, (step_eq_ok_iff t _ _).mpr ⟨hpc, ?_, o, ho, hpermit, rfl⟩, ?_⟩
  · rw [hφ.eq_pc h, hφ.eq_wordAt h]
  · rw [hrespects o ho _ s.advance, hadvance, ← hrespects o ho _ t.advance]

/-- States that cannot be told apart fail with the same fault. -/
theorem step_error {f : Fault} (hstep : s.step = .error f) : t.step = .error f := by
  rw [step_eq_error_iff] at hstep ⊢
  rcases hstep with hfetch | ⟨word, hfetch, hexecute⟩
  · rw [fetch_eq_error_iff, hφ.eq_pc h] at hfetch
    exact .inl ((fetch_eq_error_iff t f).mpr hfetch)
  · obtain ⟨hpc, -, hword⟩ := (fetch_eq_ok_iff s _ word).mp hfetch
    rw [hφ.eq_pc h] at hpc hword
    rw [hφ.eq_wordAt h] at hword
    refine .inr ⟨word, (fetch_eq_ok_iff t _ word).mpr ⟨hpc, rfl, hword⟩, ?_⟩
    refine (executeWith_eq_error_iff ..).mpr
      (((executeWith_eq_error_iff ..).mp hexecute).imp_right ?_)
    rintro ⟨o, ho, hpermit⟩
    rw [hφ.eq_permit (hφ.eq_advance h)] at hpermit
    exact ⟨o, ho, hpermit⟩

end State.Blanks

/-! ## Runs -/

/-- Whether an executed instruction reads the delay timer or the keys. -/
def Execution.readsInput (e : Execution) : Bool := e.operation?.any Operation.readsInput

/-- The number of cycles among some beats. -/
def Beat.cycles (beats : List Beat) : Nat :=
  beats.countP fun
    | .cycle _ => true
    | .tick => false

namespace Progress

/-- Two runs have executed the same words and come to states that cannot be told apart. -/
structure Like (φ : State → State) (p q : Progress) : Prop where
  state : φ p.state = φ q.state
  words : p.executed.map (·.instruction) = q.executed.map (·.instruction)

variable {φ : State → State} {p q r : Progress}

theorem Like.symm (h : p.Like φ q) : q.Like φ p := ⟨h.state.symm, h.words.symm⟩

/-- A cycle that succeeds in one of two such runs succeeds in the other. -/
theorem Like.cycle_ok (hφ : State.Blanks φ) {codes₁ codes₂ : List Int}
    (h : (p.press codes₁).Like φ (q.press codes₂)) (hbeat : p.beat (.cycle codes₁) = .ok r)
    (hrespects : ∀ e ∈ r.executed, ∀ o, e.operation? = some o → o.Respects φ) :
    ∃ r', q.beat (.cycle codes₂) = .ok r' ∧ r.Like φ r' := by
  rcases (beat_eq_ok_iff p r _).mp hbeat with ⟨_, after, word, heq, hstep, rfl⟩ | ⟨heq, -⟩
  · cases heq
    have hlast : (⟨p.state.press codes₁, ⟨word⟩, after⟩ : Execution) ∈
        (p.execute ⟨p.state.press codes₁, ⟨word⟩, after⟩).executed := by
      rw [executed_execute]
      exact List.mem_append_right _ (List.mem_singleton.mpr rfl)
    obtain ⟨after', hstep', hafter⟩ := hφ.step_ok h.state hstep (hrespects _ hlast)
    refine ⟨_, (beat_eq_ok_iff q _ _).mpr (.inl ⟨codes₂, after', word, rfl, hstep', rfl⟩),
      hafter, ?_⟩
    have hwords := h.words
    simp only [executed_press] at hwords
    simp only [executed_execute, List.map_append, hwords, List.map_cons, List.map_nil]
  · cases heq

/-- A cycle that fails in one of two such runs fails in the other. -/
theorem Like.cycle_error (hφ : State.Blanks φ) {codes₁ codes₂ : List Int} {f : Fault}
    (h : (p.press codes₁).Like φ (q.press codes₂)) (hbeat : p.beat (.cycle codes₁) = .error f) :
    q.beat (.cycle codes₂) = .error f := by
  obtain ⟨_, heq, hstep⟩ := (beat_eq_error_iff p _ f).mp hbeat
  cases heq
  exact (beat_eq_error_iff q _ f).mpr ⟨codes₂, rfl, hφ.step_error h.state hstep⟩

/-- What was executed once remains so. -/
theorem executed_subset_of_play {beats : List Beat} (hplay : p.play beats = .ok q) :
    p.executed ⊆ q.executed := by
  refine play_preserves (I := fun r => p.executed ⊆ r.executed) ?_ (List.Subset.refl _) hplay
  intro r b u hr hbeat
  rcases (beat_eq_ok_iff r u b).mp hbeat with ⟨codes, after, word, -, -, rfl⟩ | ⟨-, rfl⟩
  · rw [executed_execute]
    exact List.Subset.trans hr (List.subset_append_left _ _)
  · rw [executed_tick]
    exact hr

/-! ## Other ticks and other keys -/

theorem Like.press_core (h : p.Like State.core q) (codes₁ codes₂ : List Int) :
    (p.press codes₁).Like State.core (q.press codes₂) :=
  ⟨by simpa using h.state, by simpa using h.words⟩

theorem Like.tick_left (h : p.Like State.core q) : p.tick.Like State.core q :=
  ⟨h.state, by simpa using h.words⟩

theorem Like.tick_right (h : p.Like State.core q) : p.Like State.core q.tick :=
  h.symm.tick_left.symm

/-- **Two runs side by side.** As long as the first one reads neither timer nor keys, the second one
follows it with its own ticks and its own keys. The recursion is on both lists of beats: ticks are
taken from either side, cycles from both. -/
theorem play_of_like (beats₁ beats₂ : List Beat) {p q p' : Progress} (h : p.Like State.core q)
    (hplay : p.play beats₁ = .ok p') (hblind : ∀ e ∈ p'.executed, e.readsInput = false)
    (hcycles : Beat.cycles beats₂ = Beat.cycles beats₁) :
    ∃ q', q.play beats₂ = .ok q' ∧ p'.Like State.core q' := by
  match beats₁, beats₂ with
  | .tick :: rest₁, beats₂ => exact play_of_like rest₁ beats₂ h.tick_left hplay hblind hcycles
  | beats₁, .tick :: rest₂ => exact play_of_like beats₁ rest₂ h.tick_right hplay hblind hcycles
  | [], [] =>
    cases hplay
    exact ⟨q, rfl, h⟩
  | [], .cycle _ :: rest₂ => simp [Beat.cycles] at hcycles
  | .cycle _ :: rest₁, [] => simp [Beat.cycles] at hcycles
  | .cycle codes₁ :: rest₁, .cycle codes₂ :: rest₂ =>
    obtain ⟨r, hfirst, hrest⟩ := (play_cons_eq_ok_iff p p' _ _).mp hplay
    have hsub := executed_subset_of_play hrest
    obtain ⟨r', hfirst', hr⟩ := (h.press_core codes₁ codes₂).cycle_ok State.blanks_core hfirst
      fun e he o ho => Operation.respects_core (by
        simpa [Execution.readsInput, ho] using hblind e (hsub he))
    obtain ⟨q', hrest', hq⟩ := play_of_like rest₁ rest₂ hr hrest hblind
      (by simpa [Beat.cycles] using hcycles)
    exact ⟨q', (play_cons_eq_ok_iff q q' _ _).mpr ⟨r', hfirst', hrest'⟩, hq⟩

/-! ## Another timer of the buzzer -/

theorem Like.press_muted (h : p.Like State.muted q) (codes : List Int) :
    (p.press codes).Like State.muted (q.press codes) :=
  ⟨by simp [h.state], by simpa using h.words⟩

theorem Like.tick_muted (h : p.Like State.muted q) : p.tick.Like State.muted q.tick :=
  ⟨(State.muted_tick p.state).trans (h.state ▸ (State.muted_tick q.state).symm),
    by simpa using h.words⟩

/-- One beat of two runs that differ in the timer of the buzzer. -/
theorem beat_of_muted (b : Beat) {p q : Progress} (h : p.Like State.muted q) :
    (∀ f, p.beat b = .error f → q.beat b = .error f) ∧
      ∀ r, p.beat b = .ok r → ∃ r', q.beat b = .ok r' ∧ r.Like State.muted r' := by
  cases b with
  | cycle codes =>
    exact ⟨fun f => (h.press_muted codes).cycle_error State.blanks_muted,
      fun r hbeat => (h.press_muted codes).cycle_ok State.blanks_muted hbeat
        fun _ _ o _ => o.respects_muted⟩
  | tick =>
    refine ⟨fun f hbeat => ?_, fun r hbeat => ?_⟩
    · cases hbeat
    · cases hbeat
      exact ⟨q.tick, rfl, h.tick_muted⟩

/-- Two runs that differ in the timer of the buzzer come to the same fault or go on alike. -/
theorem play_of_muted (beats : List Beat) {p q : Progress} (h : p.Like State.muted q) :
    (∀ f, p.play beats = .error f → q.play beats = .error f) ∧
      ∀ p', p.play beats = .ok p' → ∃ q', q.play beats = .ok q' ∧ p'.Like State.muted q' := by
  induction beats generalizing p q with
  | nil =>
    refine ⟨fun f hplay => ?_, fun p' hplay => ?_⟩
    · cases hplay
    · cases hplay
      exact ⟨q, rfl, h⟩
  | cons b rest ih =>
    obtain ⟨hfails, hgoes⟩ := beat_of_muted b h
    constructor
    · intro f hplay
      rw [play_cons_eq_error_iff] at hplay ⊢
      rcases hplay with hbeat | ⟨r, hbeat, hrest⟩
      · exact .inl (hfails f hbeat)
      · obtain ⟨r', hbeat', hr⟩ := hgoes r hbeat
        exact .inr ⟨r', hbeat', (ih hr).1 f hrest⟩
    · intro p' hplay
      obtain ⟨r, hbeat, hrest⟩ := (play_cons_eq_ok_iff p p' b rest).mp hplay
      obtain ⟨r', hbeat', hr⟩ := hgoes r hbeat
      obtain ⟨q', hrest', hq⟩ := (ih hr).2 p' hrest
      exact ⟨q', (play_cons_eq_ok_iff q q' b rest).mpr ⟨r', hbeat', hrest'⟩, hq⟩

/-! ## Independence -/

/-- **Schedule and input do not matter to a program that does not ask for them**, and the timer of
the buzzer never does.

If no instruction of a run reads the delay timer or the keys, then any run of the same program with
as many cycles, whenever it ticks and whatever keys it samples, gets through, executes the same
words and comes to the same registers, memory, stack, picture and random source; and whatever
fault the next cycle of one of them fails with, that of the other one does. Two runs with the same
ticks and keys from states that differ in the timer of the buzzer come to the same fault, or to
states that differ in it alone. -/
theorem input_independence (seed : Int) (program : List UInt8) :
    (∀ (beats₁ beats₂ : List Beat) (p : Progress),
      (start seed program).play beats₁ = .ok p →
      (∀ e ∈ p.executed, e.readsInput = false) →
      Beat.cycles beats₂ = Beat.cycles beats₁ →
      ∃ q, (start seed program).play beats₂ = .ok q ∧
        q.executed.map (·.instruction) = p.executed.map (·.instruction) ∧
        q.state = { p.state with
          delayTimer := q.state.delayTimer
          soundTimer := q.state.soundTimer
          keypad := q.state.keypad } ∧
        ∀ codes₁ codes₂ f,
          p.beat (.cycle codes₁) = .error f ↔ q.beat (.cycle codes₂) = .error f) ∧
    ∀ (s : State) (timer : UInt8) (beats : List Beat),
      (∀ f, play ⟨s, []⟩ beats = .error f ↔
        play ⟨{ s with soundTimer := timer }, []⟩ beats = .error f) ∧
      ∀ p, play ⟨s, []⟩ beats = .ok p →
        ∃ q, play ⟨{ s with soundTimer := timer }, []⟩ beats = .ok q ∧
          q.executed.map (·.instruction) = p.executed.map (·.instruction) ∧
          q.state = { p.state with soundTimer := q.state.soundTimer } := by
  constructor
  · intro beats₁ beats₂ p hplay hblind hcycles
    obtain ⟨q, hq, hlike⟩ := play_of_like beats₁ beats₂ ⟨rfl, rfl⟩ hplay hblind hcycles
    refine ⟨q, hq, hlike.words.symm, State.eq_of_core hlike.state, fun codes₁ codes₂ f => ?_⟩
    exact ⟨(hlike.press_core codes₁ codes₂).cycle_error State.blanks_core,
      (hlike.symm.press_core codes₂ codes₁).cycle_error State.blanks_core⟩
  · intro s timer beats
    have hlike : Like State.muted ⟨s, []⟩ ⟨{ s with soundTimer := timer }, []⟩ := ⟨rfl, rfl⟩
    obtain ⟨hfails, hgoes⟩ := play_of_muted beats hlike
    refine ⟨fun f => ⟨hfails f, (play_of_muted beats hlike.symm).1 f⟩, fun p hplay => ?_⟩
    obtain ⟨q, hq, hpq⟩ := hgoes p hplay
    exact ⟨q, hq, hpq.words.symm, State.eq_of_muted hpq.state⟩

/-- A program that sets the delay timer and never reads it. Whether a tick comes before its last
instruction and which keys are held can be seen in the timers and in the keys alone. -/
theorem unread_delay_timer :
    ∃ p q, (start 0 [0x60, 0x09, 0xF0, 0x15, 0x71, 0x05]).play
        [.cycle [3], .cycle [3], .cycle [3]] = .ok p ∧
      (start 0 [0x60, 0x09, 0xF0, 0x15, 0x71, 0x05]).play
        [.cycle [], .cycle [7], .tick, .cycle []] = .ok q ∧
      p.state.delayTimer = 9 ∧ q.state.delayTimer = 8 ∧
      q.state.registers = p.state.registers ∧ q.state.pc = p.state.pc := by
  have hfirst : ((start 0 [0x60, 0x09, 0xF0, 0x15, 0x71, 0x05]).play
      [.cycle [3], .cycle [3], .cycle [3]]).map
        (fun p => (p.state.delayTimer, p.executed.all fun e => !e.readsInput)) =
      .ok (9, true) := by
    decide +kernel
  have hsecond : ((start 0 [0x60, 0x09, 0xF0, 0x15, 0x71, 0x05]).play
      [.cycle [], .cycle [7], .tick, .cycle []]).map (fun q => q.state.delayTimer) = .ok 8 := by
    decide +kernel
  cases hplay : (start 0 [0x60, 0x09, 0xF0, 0x15, 0x71, 0x05]).play
      [.cycle [3], .cycle [3], .cycle [3]] with
  | error f =>
    rw [hplay] at hfirst
    cases hfirst
  | ok p =>
    rw [hplay] at hfirst
    obtain ⟨htimer, hall⟩ := Prod.mk.inj (Except.ok.inj hfirst)
    have hblind : ∀ e ∈ p.executed, e.readsInput = false := by simpa using hall
    obtain ⟨q, hq, -, hstate, -⟩ := (input_independence 0 _).1 _
      [.cycle [], .cycle [7], .tick, .cycle []] p hplay hblind rfl
    rw [hq] at hsecond
    refine ⟨p, q, rfl, hq, htimer, Except.ok.inj hsecond, ?_, ?_⟩
    · rw [hstate]
    · rw [hstate]

end Progress

end Chip8
