/-
Chip8.Proofs.Atomicity — a cycle that fails changes nothing but the keys,
and ends the machine.

A fault can come from the fetch, from a word that names no operation, or
from one of the guards of the instruction set; by then the keys have been
sampled, and a fetch may have moved the program counter on.
`failing_cycle_atomic` says that the sample is all that is left of the
cycle: the machine keeps the state that it fetched from, its counts and
its last instruction, and nothing of the world is touched but the clock,
which is read for the report. The machine has halted with the fault, and
its journal has a crash report with that state and a report of the end.
-/
import Chip8.Proofs.Journal
import Chip8.Proofs.Outcome
import Chip8.Proofs.Recording
import Chip8.Proofs.Sampling

namespace Chip8

/-- The state with the keys of a sample: those with the given codes, unless they are the keys that
were sampled last. -/
def State.resample (s : State) (sampled : Keypad) (codes : List Int) : State :=
  { s with keypad := if Keypad.ofKeys codes = sampled then s.keypad else Keypad.ofKeys codes }

/-- A sample leaves a running machine running since the same time. -/
theorem Machine.sample_of_running {τ : Type} {m : Machine τ} {before : State} {startedAt : τ}
    {goesOn : Bool} (h : m.phase = .running before startedAt goesOn) (codes : List Int) :
    m.sample codes =
      { m with
        phase := .running (before.resample m.sampled codes) startedAt goesOn
        sampled := Keypad.ofKeys codes } := by
  unfold sample mapState State.resample
  by_cases hsame : Keypad.ofKeys codes = m.sampled
  · rw [if_pos hsame, if_pos hsame, hsame, ← h]
  · rw [if_neg hsame, if_neg hsame, h]

namespace Rig

section

variable {ω τ : Type} [HasRates τ] (host : Host ω τ)

/-- A running machine fetches from its state as the sample leaves it. -/
theorem fetches?_of_running {s : Rig ω τ} {before : State} {startedAt : τ} {goesOn : Bool}
    (h : s.machine.phase = .running before startedAt goesOn) :
    s.fetches? host = some (host.pressedKeys s.world,
      before.resample s.machine.sampled (host.pressedKeys s.world)) := by
  have hready := s.ready_of_running host (Machine.life_of_phase _ h)
  obtain ⟨seen, hseen, hfetches⟩ := s.fetches?_of_ready host hready
  rw [Machine.sample_of_running h] at hseen
  cases hseen
  exact hfetches

end

variable {ω τ : Type} [OfNat τ 0] [Sub τ] [HasRates τ]

/-- What a cycle leaves that fails with `f`, of a machine that runs since `startedAt`; `seen` is
the state that it fetched from. -/
structure LeftByFault (host : Host ω τ) (s : Rig ω τ) (startedAt : τ) (seen : State) (f : Fault)
    (t : Rig ω τ) : Prop where
  state : t.machine.state? = some seen
  cycles : t.machine.cycles = s.machine.cycles
  ticks : t.machine.ticks = s.machine.ticks
  previous : t.machine.previous = s.machine.previous
  /-- The machine has halted, does not go on, and has the fault as its error. -/
  records : t.Records (some (.fault f))
  /-- The clock is read once; no picture is handed over and no observer acts. -/
  world : t.world = (host.clock s.world).2
  /-- The observer is told nothing. -/
  untold : ∀ notes, (s.noting notes).cycle host.recording = (t.noting notes, some (.fault f))
  /-- One crash report with the state and one report of the end, each if the machine keeps it. -/
  journal : t.machine.journal =
    s.machine.journal ++
      (s.machine.entries (host.stamp t.world) (.crashed f.name f.message (some seen)) ++
        s.machine.entries (host.stamp t.world)
          (.halted "crashed" s.machine.cycles ((host.clock s.world).1 - startedAt)))

/-- **A failing cycle is atomic and halting**, for a running machine in any state and whatever keys
the adapter answers with: if the fetch fails, or the execution of the fetched word, the keypad as
the sample leaves it is the only change of the state. It shows the keys of the answer if the
machine is current. -/
theorem failing_cycle_atomic (host : Host ω τ) {s : Rig ω τ} {before seen : State}
    {startedAt : τ} {goesOn : Bool} {codes : List Int} {f : Fault}
    (hrunning : s.machine.phase = .running before startedAt goesOn)
    (hfetches : s.fetches? host = some (codes, seen))
    (hfault : seen.fetch = .error f ∨ ∃ fetched word,
      seen.fetch = .ok (fetched, word) ∧ fetched.execute word.toNat = .error f) :
    codes = host.pressedKeys s.world ∧
    seen =
      { before with
        keypad := if Keypad.ofKeys codes = s.machine.sampled then before.keypad
          else Keypad.ofKeys codes } ∧
    (s.machine.Current → seen.keypad = Keypad.ofKeys codes) ∧
    ∃ t, s.cycle host = (t, some (.fault f)) ∧ s.LeftByFault host startedAt seen f t := by
  have hcurrent : s.machine.Current → seen.keypad = Keypad.ofKeys codes := fun h =>
    seen_of_current host h hfetches
  rw [fetches?_of_running host hrunning] at hfetches
  obtain ⟨rfl, hseen⟩ := Prod.mk.inj (Option.some.inj hfetches)
  refine ⟨rfl, hseen.symm, hcurrent, ?_⟩
  have hstep : seen.step = .error f := by
    rw [State.step_eq_error_iff]
    rcases hfault with hfetch | ⟨fetched, word, hfetch, hexecute⟩
    · exact .inl hfetch
    · obtain ⟨-, rfl, -⟩ := (State.fetch_eq_ok_iff seen fetched word).mp hfetch
      exact .inr ⟨word, hfetch, hexecute⟩
  -- The cycle goes on from the sampled machine, and halts it.
  have hready := s.ready_of_running host (Machine.life_of_phase _ hrunning)
  have hsample := Machine.sample_of_running hrunning (host.pressedKeys s.world)
  rw [hseen] at hsample
  have hstate : (s.machine.sample (host.pressedKeys s.world)).state? = some seen := by
    rw [hsample]
    rfl
  have hcycle := s.cycle_of_ready host hready hsample rfl
  have htold := s.told_of_ready host hready hstate
  simp only [hstep] at hcycle htold
  rw [halt_eq_of_running host _ (some (.fault f)) rfl] at hcycle
  refine ⟨_, hcycle, rfl, rfl, rfl, rfl, records_of_life rfl, rfl, fun notes => ?_, rfl⟩
  rw [noting_cycle, htold, List.append_nil, hcycle]

/-- A running machine whose program is a word without an operation; the key 3 is held. -/
def derailed : Rig (List Int) Rat :=
  ⟨(Machine.new [0x80, 0x08] Config.exact .info).started 0, [3]⟩

/-- Its first cycle fails on that word: the key is seen, the program counter stays where it was,
and the journal has the crash and the end. -/
theorem derailed_cycle_atomic :
    ∃ t, derailed.cycle Host.holding = (t, some (.fault (.unknownInstruction 0x8008))) ∧
      t.machine.state?.map (fun s => (s.pc, s.keypad.keys)) = some (0x200, [3]) ∧
      t.machine.cycles = 0 ∧ t.Records (some (.fault (.unknownInstruction 0x8008))) ∧
      t.machine.journal.size = 2 := by
  have hrunning : derailed.machine.phase =
      .running (State.start 0 [0x80, 0x08]) 0 true := rfl
  have hfetches := fetches?_of_running Host.holding hrunning
  have hword : (State.start 0 [0x80, 0x08]).wordAt 0x200 = 0x8008 := by decide +kernel
  have hunlisted : firstMatch opcodeTable 0x8008 = none := by decide
  obtain ⟨-, -, -, t, hcycle, hleft⟩ := failing_cycle_atomic Host.holding hrunning hfetches
    (f := .unknownInstruction 0x8008)
    (.inr ⟨_, 0x8008, (State.fetch_eq_ok_iff ..).mpr ⟨by decide, rfl, hword.symm⟩,
      (State.executeWith_eq_error_iff ..).mpr (.inl ⟨hunlisted, rfl⟩)⟩)
  refine ⟨t, hcycle, ?_, hleft.cycles, hleft.records, ?_⟩
  · rw [hleft.state]
    decide +kernel
  · rw [hleft.journal]
    rfl

end Rig

end Chip8
