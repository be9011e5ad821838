/-
Chip8.Proofs.Loading — what the load of a program leaves, and what a machine
does whose program does not fit.

A program that fits is copied to 0x200 and nothing else of the state is
touched but the program counter (`loadProgram_eq_ok_iff`), so a fetch at any
offset into the program, even or odd, reads the two bytes that are there
(`fetch_of_bytes`).

`Rig.answers` tells of a history what every call of it hands to its caller.
A machine that is refused at its start is never changed by a call, unless
the call halts it; each call that would start it answers with the refusal
(`answers_of_refusal`), and the world is only what was made of it from
outside (`Call.touch`).
-/
import Chip8.Proofs.StraightLine

namespace Chip8

/-! ## Loaded bytes -/

namespace State

theorem loadProgram_eq_ok_iff (s t : State) (program : List UInt8) :
    s.loadProgram program = .ok t ↔
      program.length ≤ Memory.programLimit ∧
        t = { s with memory := s.memory.load Memory.programStart program, pc := 0x200 } := by
  unfold loadProgram
  by_cases hsize : Memory.programLimit < program.length
  · rw [if_pos hsize]
    exact iff_of_false (by simp) fun h => Nat.not_lt.mpr h.1 hsize
  · rw [if_neg hsize, Except.ok.injEq, eq_comm]
    exact (and_iff_right (Nat.not_lt.mp hsize)).symm

theorem loadProgram_eq_error_iff (s : State) (program : List UInt8) (f : Fault) :
    s.loadProgram program = .error f ↔
      Memory.programLimit < program.length ∧ f = .programTooLarge program.length := by
  unfold loadProgram
  by_cases hsize : Memory.programLimit < program.length
  · rw [if_pos hsize, Except.error.injEq, eq_comm]
    exact (and_iff_right hsize).symm
  · rw [if_neg hsize]
    exact iff_of_false (by simp) fun h => hsize h.1

/-- A fetch reads the two bytes at the program counter, the high byte first, and moves past them. -/
theorem fetch_of_bytes {s : State} {high low : UInt8} (hpc : s.pc.toNat < 0xFFF)
    (hhigh : s.memory.getD s.pc.toNat 0 = high) (hlow : s.memory.getD (s.pc.toNat + 1) 0 = low) :
    ∃ t word, s.fetch = .ok (t, word) ∧ word.toNat = 256 * high.toNat + low.toNat ∧
      t = { s with pc := t.pc } ∧ t.pc.toNat = s.pc.toNat + 2 := by
  refine ⟨_, _, (fetch_eq_ok_iff s _ _).mpr ⟨hpc, rfl, rfl⟩, ?_, rfl, toNat_add_two (by omega)⟩
  rw [s.toNat_wordAt, hhigh, hlow]

end State

/-! ## Answers -/

namespace Call

variable {ω : Type}

/-- Whether a call starts a machine that has not started, and hands the failure of that to its
caller. A detached run drops it. -/
def starts : Call ω → Bool
  | .boot | .cycle | .tick | .run _ => true
  | .stop | .halt _ | .runDetached _ | .affect _ => false

/-- What a call does to the world from outside. -/
def touch (w : ω) : Call ω → ω
  | .affect f => f w
  | _ => w

end Call

namespace Rig

variable {ω τ : Type} [OfNat τ 0] [OfNat τ 1] [OfNat τ 4] [Add τ] [Sub τ] [Mul τ] [Div τ]
  [LE τ] [DecidableLE τ] [HasRates τ] (host : Host ω τ)

section

variable {s : Rig ω τ} {e : Failure}

/-- **A machine that is refused stays as it is**, and hands the refusal to whoever would start it.
Only a halt changes it. -/
theorem answer_of_refusal (hbooting : s.machine.status = .booting)
    (hrefusal : s.machine.refusal = some e) {c : Call ω} (hhalt : ∀ error, c ≠ .halt error) :
    s.answer host c = some (⟨s.machine, c.touch s.world⟩, if c.starts then some e else none) := by
  have hlife := s.machine.life_of_booting hbooting
  have hlive : s.machine.status ≠ .halted := by
    rw [hbooting]
    exact Status.noConfusion
  have hboot := s.boot_of_refusal host hlive hrefusal
  have hready := (s.ready_of_booting host hlife).trans hboot
  cases c with
  | boot => exact congrArg some hboot
  | cycle => exact congrArg some (s.cycle_of_not_ready host hready)
  | tick => exact congrArg some (s.tick_of_not_ready host hready)
  | stop =>
    have hstop : s.machine.stop = s.machine := by
      unfold Machine.stop
      rw [s.machine.phase_of_booting hlife]
    show some ((⟨s.machine.stop, s.world⟩ : Rig ω τ), none) = _
    rw [hstop]
    rfl
  | halt error => exact absurd rfl (hhalt error)
  | run fuel => exact s.run_of_not_ready host fuel hready
  | runDetached fuel =>
    show ((s.run host fuel).map _).map _ = _
    rw [s.run_of_not_ready host fuel hready]
    rfl
  | affect f => rfl

/-- **What a history does to a machine that is refused**, by induction on its calls. -/
theorem answers_of_refusal (hbooting : s.machine.status = .booting)
    (hrefusal : s.machine.refusal = some e) {calls : List (Call ω)}
    (hhalt : ∀ c ∈ calls, ∀ error, c ≠ .halt error) :
    s.answers host calls =
      some (⟨s.machine, calls.foldl Call.touch s.world⟩,
        calls.map fun c => if c.starts then some e else none) := by
  induction calls generalizing s with
  | nil => rfl
  | cons c rest ih =>
    have hfirst := answer_of_refusal host hbooting hrefusal (hhalt c List.mem_cons_self)
    have hrest := ih (s := ⟨s.machine, c.touch s.world⟩) hbooting hrefusal
      fun c' hc' => hhalt c' (List.mem_cons_of_mem c hc')
    unfold answers
    rw [hfirst, Option.bind_some, hrest]
    rfl

end

/-! ## Loading -/

/-- **A program is loaded, or nothing happens.** A program of at most 3584 bytes is loaded into any
state: its bytes are at 0x200, and all other bytes and parts of the state but the program counter
are as before. With these bytes in memory a fetch at any offset into the program but the last one
reads the two bytes there, the high byte first.

No state takes a longer program. A machine that is made for one, with a seed that is one, hands this
fault to every call that would start it, and whatever is called, short of a halt, it stays as it was
made; the world is changed from outside alone. -/
theorem program_loads_or_is_refused :
    (∀ (s : State) (program : List UInt8), program.length ≤ 3584 →
      ∃ t, s.loadProgram program = .ok t ∧ t.pc = 0x200 ∧
        t = { s with memory := t.memory, pc := t.pc } ∧
        (∀ i < program.length, t.memory.getD (0x200 + i) 0 = program.getD i 0) ∧
        (∀ a < 4096, ¬ (0x200 ≤ a ∧ a < 0x200 + program.length) →
          t.memory.getD a 0 = s.memory.getD a 0) ∧
        ∀ (u : State) (offset : Nat), u.memory = t.memory → u.pc.toNat = 0x200 + offset →
          offset + 1 < program.length →
          ∃ v word, u.fetch = .ok (v, word) ∧
            word.toNat =
              256 * (program.getD offset 0).toNat + (program.getD (offset + 1) 0).toNat ∧
            v = { u with pc := v.pc } ∧ v.pc.toNat = 0x202 + offset) ∧
    ∀ program : List UInt8, 3584 < program.length →
      (∀ s : State, s.loadProgram program = .error (.programTooLarge program.length)) ∧
      ∀ (s : Rig ω τ) (config : Config τ) (threshold : Level) (calls : List (Call ω)),
        s.machine = Machine.new program config threshold → Random.isSeed config.seed = true →
        (∀ c ∈ calls, ∀ error, c ≠ .halt error) →
        s.answers host calls =
          some (⟨Machine.new program config threshold, calls.foldl Call.touch s.world⟩,
            calls.map fun c =>
              if c.starts then some (.fault (.programTooLarge program.length)) else none) := by
  have hlimit : Memory.programLimit = 3584 := rfl
  have hstart : Memory.programStart = 0x200 := rfl
  refine ⟨fun s program hsize => ?_, fun program hsize => ⟨fun s => ?_, ?_⟩⟩
  · -- What a load leaves is said of every byte at once.
    have hbyte : ∀ a < 4096, (s.memory.load Memory.programStart program).getD a 0 =
        if 0x200 ≤ a ∧ a < 0x200 + program.length then program.getD (a - 0x200) 0
        else s.memory.getD a 0 := fun a ha => s.memory.getD_load Memory.programStart program ha
    have hloaded : ∀ i < program.length,
        (s.memory.load Memory.programStart program).getD (0x200 + i) 0 = program.getD i 0 := by
      intro i hi
      rw [hbyte _ (by omega), if_pos (by omega), Nat.add_sub_cancel_left]
    refine ⟨_, (s.loadProgram_eq_ok_iff _ program).mpr ⟨hsize, rfl⟩, rfl, rfl, hloaded,
      fun a ha hout => ?_, fun u offset hmemory hpc hoffset => ?_⟩
    · rw [hbyte a ha, if_neg hout]
    · have hhigh : u.memory.getD u.pc.toNat 0 = program.getD offset 0 := by
        rw [hmemory, hpc]
        exact hloaded offset (by omega)
      have hlow : u.memory.getD (u.pc.toNat + 1) 0 = program.getD (offset + 1) 0 := by
        rw [hmemory, hpc]
        exact hloaded (offset + 1) hoffset
      obtain ⟨v, word, hfetch, hword, hframe, hnext⟩ :=
        State.fetch_of_bytes (by omega) hhigh hlow
      exact ⟨v, word, hfetch, hword, hframe, by omega⟩
  · exact (s.loadProgram_eq_error_iff program _).mpr ⟨hsize, rfl⟩
  · intro s config threshold calls hnew hseed hhalt
    have hbooting : s.machine.status = .booting := by
      rw [hnew]
      rfl
    have hrefusal : s.machine.refusal = some (.fault (.programTooLarge program.length)) := by
      rw [hnew]
      exact (Machine.refusal_eq_some_iff _ _).mpr (.inr ⟨hseed, hsize, rfl⟩)
    rw [answers_of_refusal host hbooting hrefusal hhalt, hnew]

/-- A program that fills memory: the last word of it is fetched. One byte more is refused, whatever
is called, and the only change is that of the keys from outside. -/
theorem full_program_loaded_and_longer_refused :
    (∃ t v word,
      (State.initial ⟨0, 0⟩).loadProgram (List.replicate 3584 0x12) = .ok t ∧
      State.fetch { t with pc := 0xFFE } = .ok (v, word) ∧ word.toNat = 0x1212 ∧
      v.pc.toNat = 0x1000) ∧
    answers Host.holding ⟨Machine.new (List.replicate 3585 0) Config.exact .info, []⟩
        [.boot, .cycle, .affect fun _ => [5], .tick, .run 3] =
      some (⟨Machine.new (List.replicate 3585 0) Config.exact .info, [5]⟩,
        [some (.fault (.programTooLarge 3585)), some (.fault (.programTooLarge 3585)), none,
          some (.fault (.programTooLarge 3585)), some (.fault (.programTooLarge 3585))]) := by
  have hfull : (List.replicate 3584 (0x12 : UInt8)).length = 3584 := List.length_replicate
  have hlong : (List.replicate 3585 (0 : UInt8)).length = 3585 := List.length_replicate
  have hlast : ∀ i < 3584, (List.replicate 3584 (0x12 : UInt8)).getD i 0 = 0x12 := by
    intro i hi
    rw [List.getD_eq_getElem?_getD, List.getElem?_replicate_of_lt hi, Option.getD_some]
  constructor
  · obtain ⟨t, hload, -, -, -, -, hfetch⟩ := (program_loads_or_is_refused Host.holding).1
      (State.initial ⟨0, 0⟩) (List.replicate 3584 0x12) (by omega)
    obtain ⟨v, word, hok, hword, -, hpc⟩ := hfetch { t with pc := 0xFFE } 3582 rfl rfl
      (by omega)
    rw [hlast 3582 (by omega), hlast (3582 + 1) (by omega)] at hword
    exact ⟨t, v, word, hload, hok, hword, hpc⟩
  · have hanswers := ((program_loads_or_is_refused Host.holding).2 (List.replicate 3585 0)
      (by omega)).2 ⟨Machine.new (List.replicate 3585 0) Config.exact .info, []⟩
      Config.exact .info [.boot, .cycle, .affect fun _ => [5], .tick, .run 3] rfl (by decide)
      (by intro c hc error; rintro rfl; simp at hc)
    rw [hanswers, hlong]
    rfl

end Rig

end Chip8
