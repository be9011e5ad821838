/-
Chip8.Proofs.Execution — what a fetch and an execution can do.

Each of the steps of a machine that can fail is inverted once, both ways:

* `permit_eq_ok_iff`, `permit_eq_error_iff` — a memory range.
* `fetch_eq_ok_iff`, `fetch_eq_error_iff` — a fetch.
* `executeWith_eq_ok_iff`, `executeWith_eq_error_iff` — an execution.
* `step_eq_ok_iff`, `step_eq_error_iff` — the two in one step; `advance`
  is the state between them.

Everything that is proved of executions goes through these. They rest on
the two inversions of a sequence of steps, `bind_eq_ok_iff` and
`bind_eq_error_iff`.
-/
import Chip8.Proofs.Opcode

namespace Chip8

/-! ## Sequences of steps that can fail -/

/-- A sequence succeeds exactly if its first step does and the rest does with what that gave. -/
theorem bind_eq_ok_iff {ε α β : Type} {x : Except ε α} {f : α → Except ε β} {b : β} :
    x >>= f = .ok b ↔ ∃ a, x = .ok a ∧ f a = .ok b := by
  cases x with
  | error e => simp [bind, Except.bind]
  | ok a => simp [bind, Except.bind]

/-- A sequence fails exactly if its first step does, or the rest does with what that gave. -/
theorem bind_eq_error_iff {ε α β : Type} {x : Except ε α} {f : α → Except ε β} {e : ε} :
    x >>= f = .error e ↔ x = .error e ∨ ∃ a, x = .ok a ∧ f a = .error e := by
  cases x with
  | error e' => simp [bind, Except.bind]
  | ok a => simp [bind, Except.bind]

/-! ## Memory ranges -/

namespace Access

/-- A range is permitted if it is empty or ends in memory. -/
theorem permit_eq_ok_iff (access : Access) (start length : Nat) :
    access.permit start length = .ok () ↔ length = 0 ∨ start + length - 1 ≤ 0xFFF := by
  have hlast : Memory.last = 0xFFF := rfl
  unfold permit
  by_cases h : 0 < length ∧ Memory.last < start + length - 1
  · rw [if_pos h]
    simp only [reduceCtorEq, false_iff]
    omega
  · rw [if_neg h]
    simp only [true_iff]
    omega

/-- A range is refused, under the address of its last byte, if it ends beyond memory. -/
theorem permit_eq_error_iff (access : Access) (start length : Nat) (f : Fault) :
    access.permit start length = .error f ↔
      0 < length ∧ 0xFFF < start + length - 1 ∧ f = .outOfRange access (start + length - 1) := by
  have hlast : Memory.last = 0xFFF := rfl
  unfold permit
  by_cases h : 0 < length ∧ Memory.last < start + length - 1
  · rw [if_pos h, Except.error.injEq, eq_comm]
    exact ⟨fun hf => ⟨h.1, h.2, hf⟩, fun hf => hf.2.2⟩
  · rw [if_neg h]
    simp only [reduceCtorEq, false_iff]
    exact fun hf => h ⟨hf.1, hf.2.1⟩

end Access

namespace State

/-! ## Fetching -/

theorem fetch_eq_ok_iff (s t : State) (word : UInt16) :
    s.fetch = .ok (t, word) ↔
      s.pc.toNat < 0xFFF ∧ t = { s with pc := s.pc + 2 } ∧ word = s.wordAt s.pc.toNat := by
  unfold fetch
  rw [bind_eq_ok_iff]
  constructor
  · rintro ⟨_, hp, h⟩
    have hpc := (Access.permit_eq_ok_iff .fetch s.pc.toNat 2).mp hp
    cases h
    exact ⟨by omega, rfl, rfl⟩
  · rintro ⟨hpc, rfl, rfl⟩
    exact ⟨(), (Access.permit_eq_ok_iff .fetch s.pc.toNat 2).mpr (by omega), rfl⟩

/-- A fetch fails exactly if the second byte of the word lies beyond memory. -/
theorem fetch_eq_error_iff (s : State) (f : Fault) :
    s.fetch = .error f ↔ 0xFFF ≤ s.pc.toNat ∧ f = .outOfRange .fetch (s.pc.toNat + 1) := by
  unfold fetch
  rw [bind_eq_error_iff, Access.permit_eq_error_iff]
  constructor
  · rintro (⟨-, hpc, hf⟩ | ⟨_, -, h⟩)
    · exact ⟨by omega, hf⟩
    · cases h
  · rintro ⟨hpc, hf⟩
    exact .inl ⟨by omega, by omega, hf⟩

/-! ## Executing -/

/-- An execution that succeeds performs the permitted operation that the word names. -/
theorem executeWith_eq_ok_iff (edge : Edge) (s t : State) (word : Int) :
    s.executeWith edge word = .ok t ↔
      ∃ o, firstMatch opcodeTable word = some o ∧ o.permit (Instruction.decode word) s = .ok () ∧
        t = o.perform edge (Instruction.decode word) s := by
  rw [← firstMatch_decode]
  unfold executeWith
  simp only [bind_eq_ok_iff, ofWord_eq_ok_iff]
  constructor
  · rintro ⟨o, ho, _, hp, h⟩
    cases h
    exact ⟨o, ho, hp, rfl⟩
  · rintro ⟨o, ho, hp, rfl⟩
    exact ⟨o, ho, (), hp, rfl⟩

/-- An execution that fails lacks an operation, or the operation that the word names is refused. -/
theorem executeWith_eq_error_iff (edge : Edge) (s : State) (word : Int) (f : Fault) :
    s.executeWith edge word = .error f ↔
      (firstMatch opcodeTable word = none ∧ f = .unknownInstruction (word % 65536)) ∨
        ∃ o, firstMatch opcodeTable word = some o ∧
          o.permit (Instruction.decode word) s = .error f := by
  rw [← firstMatch_decode, ← toNat_decode]
  unfold executeWith
  simp only [bind_eq_error_iff, ofWord_eq_ok_iff, ofWord_eq_error_iff]
  refine or_congr Iff.rfl (exists_congr fun o => and_congr Iff.rfl ?_)
  constructor
  · rintro (hp | ⟨_, -, h⟩)
    · exact hp
    · cases h
  · exact Or.inl

/-! ## Stepping -/

/-- The program counter moves past a word. -/
def advance (s : State) : State := { s with pc := s.pc + 2 }

@[simp] theorem advance_stack (s : State) : s.advance.stack = s.stack := rfl

/-- A step that succeeds performs the permitted operation that the word at the program counter
names. -/
theorem step_eq_ok_iff (s t : State) (word : UInt16) :
    s.step = .ok (t, word) ↔
      s.pc.toNat < 0xFFF ∧ word = s.wordAt s.pc.toNat ∧
        ∃ o, firstMatch opcodeTable word.toNat = some o ∧ o.permit ⟨word⟩ s.advance = .ok () ∧
          t = o.perform Edge.standard ⟨word⟩ s.advance := by
  have hdecode : Instruction.decode word.toNat = ⟨word⟩ := decode_toNat ⟨word⟩
  unfold step
  rw [bind_eq_ok_iff]
  constructor
  · rintro ⟨⟨fetched, read⟩, hfetch, hrest⟩
    obtain ⟨hpc, rfl, hread⟩ := (fetch_eq_ok_iff s fetched read).mp hfetch
    obtain ⟨after, hexecute, heq⟩ := bind_eq_ok_iff.mp hrest
    cases heq
    have hok := (executeWith_eq_ok_iff Edge.standard s.advance t word.toNat).mp hexecute
    rw [hdecode] at hok
    exact ⟨hpc, hread, hok⟩
  · rintro ⟨hpc, hread, hok⟩
    rw [← hdecode] at hok
    have hexecute : s.advance.execute word.toNat = .ok t :=
      (executeWith_eq_ok_iff Edge.standard s.advance t word.toNat).mpr hok
    exact ⟨⟨s.advance, word⟩, (fetch_eq_ok_iff s _ word).mpr ⟨hpc, rfl, hread⟩,
      bind_eq_ok_iff.mpr ⟨t, hexecute, rfl⟩⟩

/-- A step fails if its fetch does, or if what it fetched is refused. -/
theorem step_eq_error_iff (s : State) (f : Fault) :
    s.step = .error f ↔
      s.fetch = .error f ∨
        ∃ word, s.fetch = .ok (s.advance, word) ∧ s.advance.execute word.toNat = .error f := by
  unfold step
  rw [bind_eq_error_iff]
  refine or_congr Iff.rfl ⟨?_, ?_⟩
  · rintro ⟨⟨fetched, word⟩, hfetch, hrest⟩
    obtain ⟨-, rfl, -⟩ := (fetch_eq_ok_iff s fetched word).mp hfetch
    rcases bind_eq_error_iff.mp hrest with hexecute | ⟨after, -, hpure⟩
    · exact ⟨word, hfetch, hexecute⟩
    · cases hpure
  · rintro ⟨word, hfetch, hexecute⟩
    exact ⟨⟨s.advance, word⟩, hfetch, bind_eq_error_iff.mpr (.inl hexecute)⟩

/-- A step with a fetched word that names an operation fails if the operation is refused. -/
theorem step_eq_error_iff_permit {s fetched : State} {word : UInt16} {o : Operation}
    (hfetch : s.fetch = .ok (fetched, word)) (ho : firstMatch opcodeTable word.toNat = some o)
    (f : Fault) : s.step = .error f ↔ o.permit ⟨word⟩ s.advance = .error f := by
  have hdecode : Instruction.decode word.toNat = ⟨word⟩ := decode_toNat ⟨word⟩
  obtain ⟨-, rfl, -⟩ := (fetch_eq_ok_iff s fetched word).mp hfetch
  have hexecute := executeWith_eq_error_iff Edge.standard s.advance word.toNat f
  simp only [ho, reduceCtorEq, false_and, false_or, Option.some.injEq, exists_eq_left',
    hdecode] at hexecute
  rw [step_eq_error_iff, ← hexecute, hfetch]
  constructor
  · rintro (h | ⟨_, heq, h⟩)
    · cases h
    · cases heq
      exact h
  · intro h
    exact .inr ⟨word, rfl, h⟩

end State

end Chip8
