/-
Chip8.Proofs.Interpreter — the interpreter without a machine: a state, and
a list of beats that it goes through.

A beat is a cycle, with the codes that the adapter answers with in it, or
a timer tick. `Progress` is the state together with all that was done so
far, and `Progress.play` goes through a list of beats until the first
fault.

* `beat_eq_ok_iff` and `beat_eq_error_iff` — what a beat can do.
* `play_preserves` — what every beat keeps, a run keeps.

Every property of runs is stated of `Progress.start`, the font and a
program in memory and nothing done.
-/
import Chip8.Proofs.Execution

namespace Chip8

namespace State

/-- The state in which a program starts. -/
def start (seed : Int) (program : List UInt8) : State :=
  { initial (Random.ofSeed seed) with
    memory := Memory.initial.load Memory.programStart program
    pc := 0x200 }

theorem loadProgram_initial (seed : Int) {program : List UInt8}
    (h : ¬ Memory.programLimit < program.length) :
    (initial (Random.ofSeed seed)).loadProgram program = .ok (start seed program) := if_neg h

/-- The keys with the given codes are held, and no others. -/
def press (s : State) (codes : List Int) : State := { s with keypad := Keypad.ofKeys codes }

@[simp] theorem press_pc (s : State) (codes : List Int) : (s.press codes).pc = s.pc := by
  unfold press
  rfl

@[simp] theorem press_stack (s : State) (codes : List Int) :
    (s.press codes).stack = s.stack := by
  unfold press
  rfl

end State

/-! ## Beats and what they do -/

/-- A cycle, with the codes of the keys that the adapter answers with, or a timer tick. -/
inductive Beat where
  | cycle (codes : List Int)
  | tick

/-- An executed instruction, the state that it was fetched from and the state that it led to. -/
structure Execution where
  before : State
  instruction : Instruction
  after : State

/-- The operation that an executed instruction named. -/
def Execution.operation? (e : Execution) : Option Operation :=
  firstMatch opcodeTable e.instruction.raw.toNat

inductive Deed where
  | executed (e : Execution)
  | ticked

/-- A state and all that was done up to it. -/
structure Progress where
  state : State
  deeds : List Deed

namespace Progress

/-- The instructions that were executed, in order. -/
def executed (p : Progress) : List Execution :=
  p.deeds.filterMap fun
    | .executed e => some e
    | .ticked => none

/-- The number of timer ticks. -/
def ticks (p : Progress) : Nat :=
  p.deeds.countP fun
    | .executed _ => false
    | .ticked => true

/-- A program at its start. -/
def start (seed : Int) (program : List UInt8) : Progress := ⟨State.start seed program, []⟩

/-- Other keys are held. -/
def press (p : Progress) (codes : List Int) : Progress := ⟨p.state.press codes, p.deeds⟩

/-- An instruction leads to another state. -/
def execute (p : Progress) (e : Execution) : Progress := ⟨e.after, p.deeds ++ [.executed e]⟩

/-- The timers are lowered. -/
def tick (p : Progress) : Progress := ⟨p.state.tick, p.deeds ++ [.ticked]⟩

/-- One beat. -/
def beat (p : Progress) : Beat → Except Fault Progress
  | .cycle codes => do
    let before := p.state.press codes
    let (after, word) ← before.step
    return p.execute ⟨before, Instruction.decode word.toNat, after⟩
  | .tick => return p.tick

/-- Beat after beat, until the first fault. -/
def play (p : Progress) (beats : List Beat) : Except Fault Progress := beats.foldlM beat p

/-! ## The record of what was done -/

@[simp] theorem state_press (p : Progress) (codes : List Int) :
    (p.press codes).state = p.state.press codes := by
  unfold press
  rfl

@[simp] theorem execute_press (p : Progress) (codes : List Int) (e : Execution) :
    (p.press codes).execute e = p.execute e := by
  unfold execute press
  rfl

@[simp] theorem executed_press (p : Progress) (codes : List Int) :
    (p.press codes).executed = p.executed := by
  unfold executed press
  rfl

@[simp] theorem ticks_press (p : Progress) (codes : List Int) :
    (p.press codes).ticks = p.ticks := by
  unfold ticks press
  rfl

@[simp] theorem executed_execute (p : Progress) (e : Execution) :
    (p.execute e).executed = p.executed ++ [e] := by
  simp [executed, execute]

@[simp] theorem ticks_execute (p : Progress) (e : Execution) : (p.execute e).ticks = p.ticks := by
  simp [ticks, execute]

@[simp] theorem executed_tick (p : Progress) : p.tick.executed = p.executed := by
  simp [executed, tick]

@[simp] theorem ticks_tick (p : Progress) : p.tick.ticks = p.ticks + 1 := by
  simp [ticks, tick]

/-! ## Beats -/

theorem beat_eq_ok_iff (p q : Progress) (b : Beat) :
    p.beat b = .ok q ↔
      (∃ codes after word, b = .cycle codes ∧ (p.state.press codes).step = .ok (after, word) ∧
        q = p.execute ⟨p.state.press codes, ⟨word⟩, after⟩) ∨
      (b = .tick ∧ q = p.tick) := by
  cases b with
  | cycle codes =>
    simp only [beat, bind_eq_ok_iff, Beat.cycle.injEq, reduceCtorEq, false_and, or_false]
    constructor
    · rintro ⟨⟨after, word⟩, hstep, heq⟩
      cases heq
      exact ⟨codes, after, word, rfl, hstep, by rw [decode_toNat ⟨word⟩]⟩
    · rintro ⟨_, after, word, rfl, hstep, rfl⟩
      exact ⟨⟨after, word⟩, hstep, by rw [decode_toNat ⟨word⟩]; rfl⟩
  | tick =>
    constructor
    · intro h
      cases h
      exact .inr ⟨rfl, rfl⟩
    · rintro (⟨_, _, _, h, -⟩ | ⟨-, rfl⟩)
      · cases h
      · rfl

/-- Only a cycle can fail, and it does if its step does. -/
theorem beat_eq_error_iff (p : Progress) (b : Beat) (f : Fault) :
    p.beat b = .error f ↔ ∃ codes, b = .cycle codes ∧ (p.state.press codes).step = .error f := by
  cases b with
  | cycle codes =>
    simp only [beat, bind_eq_error_iff, Beat.cycle.injEq]
    constructor
    · rintro (hstep | ⟨_, -, hpure⟩)
      · exact ⟨codes, rfl, hstep⟩
      · cases hpure
    · rintro ⟨_, rfl, hstep⟩
      exact .inl hstep
  | tick =>
    constructor
    · intro h
      cases h
    · rintro ⟨codes, h, -⟩
      cases h

/-! ## Runs -/

theorem play_cons_eq_ok_iff (p q : Progress) (b : Beat) (rest : List Beat) :
    p.play (b :: rest) = .ok q ↔ ∃ r, p.beat b = .ok r ∧ r.play rest = .ok q := by
  unfold play
  rw [List.foldlM_cons, bind_eq_ok_iff]

theorem play_cons_eq_error_iff (p : Progress) (b : Beat) (rest : List Beat) (f : Fault) :
    p.play (b :: rest) = .error f ↔
      p.beat b = .error f ∨ ∃ r, p.beat b = .ok r ∧ r.play rest = .error f := by
  unfold play
  rw [List.foldlM_cons, bind_eq_error_iff]

/-- A run goes on from where its first part has led to. -/
theorem play_append_eq_ok_iff (p q : Progress) (beats more : List Beat) :
    p.play (beats ++ more) = .ok q ↔ ∃ r, p.play beats = .ok r ∧ r.play more = .ok q := by
  unfold play
  rw [List.foldlM_append, bind_eq_ok_iff]

theorem play_singleton (p : Progress) (b : Beat) : p.play [b] = p.beat b := by
  unfold play
  rw [List.foldlM_cons]
  exact bind_pure (p.beat b)

/-- **Induction on runs**: what every beat keeps, all of them together keep. -/
theorem play_preserves {I : Progress → Prop} (hbeat : ∀ p b q, I p → p.beat b = .ok q → I q)
    {p q : Progress} {beats : List Beat} (hp : I p) (hplay : p.play beats = .ok q) : I q := by
  induction beats generalizing p with
  | nil =>
    cases hplay
    exact hp
  | cons b rest ih =>
    obtain ⟨r, hr, hrest⟩ := (play_cons_eq_ok_iff p q b rest).mp hplay
    exact ih (hbeat p b r hp hr) hrest

end Progress

end Chip8
