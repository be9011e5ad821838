/-
Chip8.Proofs.NextAddress — where execution goes on after a word, for every
state.

`State.nextAddress` tells the address from the digits of the word and from
the state before the fetch, in natural numbers. `nextAddress_eq` is the
link to the operations: a word has one shape, so one of the cases applies
at most, and there it agrees with `Operation.destination`.

The skips come in three pairs with opposite conditions
(`Operation.Opposite`). Two words of a pair with the same fields are both
carried out by every state, and just one of them skips (`oneSkips`).

An address may lie beyond memory then: BNNN reaches up to 0x10FE, a skip up
to 0x1002. The next fetch is what fails.
-/
import Chip8.Proofs.ControlFlow
import Chip8.Proofs.Returns
import Chip8.Proofs.Shapes

namespace Chip8

/-! ## The address after a word -/

namespace State

/-- A state passes over the word after a skip. The key of EX9E and EXA1 is VX modulo 16. -/
def SkipsAfter (s : State) (i : Instruction) : Prop :=
  (Operation.skipEqImmediate.Shapes i ∧ s.register i.x = i.nn) ∨
  (Operation.skipNeImmediate.Shapes i ∧ s.register i.x ≠ i.nn) ∨
  (Operation.skipEqRegister.Shapes i ∧ s.register i.x = s.register i.y) ∨
  (Operation.skipNeRegister.Shapes i ∧ s.register i.x ≠ s.register i.y) ∨
  ∃ key : Fin 16, key.val = (s.register i.x).toNat % 16 ∧
    ((Operation.skipKeyPressed.Shapes i ∧ s.keypad.get key = true) ∨
      (Operation.skipKeyNotPressed.Shapes i ∧ s.keypad.get key = false))

instance (s : State) (i : Instruction) : Decidable (s.SkipsAfter i) :=
  inferInstanceAs (Decidable (_ ∨ _ ∨ _ ∨ _ ∨ ∃ _ : Fin 16, _))

/-- The address at which execution goes on after a word at the program counter: NNN for 1NNN and
2NNN, NNN + V0 for BNNN, the return address on top of the stack for 00EE, the same address for FX0A
with no key held, and else that of the following word or of the one after it. -/
def nextAddress (s : State) (i : Instruction) : Nat :=
  if Operation.jump.Shapes i ∨ Operation.call.Shapes i then i.raw.toNat % 4096
  else if Operation.jumpOffset.Shapes i then
    i.raw.toNat % 4096 + (s.registers[0]?.getD 0).toNat
  else if Operation.ret.Shapes i then (s.stack.slots.getD (s.stack.pointer.val - 1) 0).toNat
  else if Operation.waitKey.Shapes i ∧ s.keypad.keys.isEmpty then s.pc.toNat
  else if s.SkipsAfter i then s.pc.toNat + 4
  else s.pc.toNat + 2

end State

/-- There is a lowest held key unless none is held. -/
theorem Keypad.isNone_lowest? (p : Keypad) : p.lowest?.isNone = p.keys.isEmpty := by
  rw [lowest?, keys, ← List.head?_filter]
  cases (List.finRange 16).filter p.get with
  | nil => rfl
  | cons key rest => rfl

/-- The top of a stack that is not empty is the slot below the pointer. -/
theorem CallStack.top_eq_getD {c : CallStack} (h : c.pointer.val ≠ 0)
    (outside : Slots → Int → UInt16) : c.top outside = c.slots.getD (c.pointer.val - 1) 0 := by
  have hptr := c.pointer.isLt
  have hcast : (c.pointer.val : Int) - 1 = (c.pointer.val - 1 : Nat) := by omega
  have hlt : c.pointer.val - 1 < 16 := by omega
  rw [top, hcast, readAt_of_lt _ _ hlt]
  simp [Vector.getD, hlt]

namespace State

theorem keyOf_eq_iff (s : State) (k : Fin 16) (b : Bool) :
    s.keyOf k = b ↔
      ∃ key : Fin 16, key.val = (s.register k).toNat % 16 ∧ s.keypad.get key = b := by
  constructor
  · intro h
    exact ⟨_, rfl, h⟩
  · rintro ⟨key, hkey, rfl⟩
    exact congrArg s.keypad.get (Fin.ext hkey.symm)

variable {s : State} {i : Instruction} {o : Operation}

/-- The skips of the operations, read off the digits. -/
theorem skipsAfter_iff (ho : firstMatch opcodeTable i.raw.toNat = some o) :
    s.SkipsAfter i ↔ o.skips i s = true := by
  have hnamed : ∀ o', o' ≠ .systemCall → (Operation.Shapes o' i ↔ o' = o) :=
    fun _ => shapes_iff_eq_of_named ho
  cases o <;> simp [SkipsAfter, hnamed, Operation.skips, keyOf_eq_iff]

/-- The destinations of the operations, read off the digits. -/
theorem nextAddress_eq (ho : firstMatch opcodeTable i.raw.toNat = some o)
    (hstack : o = .ret → s.stack.pointer.val ≠ 0) :
    s.nextAddress i = o.destination i s (s.pc.toNat + 2) := by
  have hnamed : ∀ o', o' ≠ .systemCall → (Operation.Shapes o' i ↔ o' = o) :=
    fun _ => shapes_iff_eq_of_named ho
  have hskips := skipsAfter_iff (s := s) ho
  cases o with
  | jump | call | jumpOffset => simp [nextAddress, hnamed, Operation.destination, toNat_nnn]
  | ret =>
    have htop := CallStack.top_eq_getD (hstack rfl) Edge.standard.address
    simp [nextAddress, hnamed, Operation.destination, htop]
  | waitKey =>
    have hwait : Operation.destination i s (s.pc.toNat + 2) .waitKey =
        if s.keypad.keys.isEmpty then s.pc.toNat else s.pc.toNat + 2 := by
      rw [Operation.destination, Keypad.isNone_lowest?, Nat.add_sub_cancel]
    simp [nextAddress, hnamed, hskips, hwait, Operation.skips]
  | _ => simp [nextAddress, hnamed, hskips, Operation.destination]

/-- A step goes on at the next address. -/
theorem step_pc {t : State} {word : UInt16} (h : s.step = .ok (t, word)) :
    t.pc.toNat = s.nextAddress ⟨word⟩ := by
  obtain ⟨o, ho, hpermit, hpc, -, -⟩ := step_flow h
  refine hpc.trans (nextAddress_eq ho ?_).symm
  rintro rfl
  exact Operation.nonempty_of_permit_ret (s := s.advance) hpermit

end State

/-! ## Opposite skips -/

/-- Two skips that compare the same, one for equal or held and one for the contrary. -/
inductive Operation.Opposite : Operation → Operation → Prop
  | immediate : Opposite .skipEqImmediate .skipNeImmediate
  | register : Opposite .skipEqRegister .skipNeRegister
  | key : Opposite .skipKeyPressed .skipKeyNotPressed

/-- Two words have the same digits where the code of an operation has letters. -/
def Operation.SameFields (o : Operation) (i i' : Instruction) : Prop :=
  ∀ k, o.shape k = none → i.digit k = i'.digit k

namespace State

/-- A state carries both words out. One of them passes over the next word, the other one does
not. -/
def OneSkips (s : State) (word word' : Int) : Prop :=
  ∃ t t', s.execute word = .ok t ∧ s.execute word' = .ok t' ∧
    ((t.pc = s.pc + 2 ∧ t'.pc = s.pc) ∨ (t.pc = s.pc ∧ t'.pc = s.pc + 2))

theorem skipIf_pc (s : State) (condition : Bool) :
    (s.skipIf condition).pc = if condition then s.pc + 2 else s.pc := by
  rw [skipIf_eq]

theorem oneSkips_of_skipIf {s : State} {word word' : Int} (condition : Bool)
    (h : s.execute word = .ok (s.skipIf condition))
    (h' : s.execute word' = .ok (s.skipIf !condition)) : s.OneSkips word word' := by
  refine ⟨_, _, h, h', ?_⟩
  rw [skipIf_pc, skipIf_pc]
  cases condition with
  | true => exact .inl ⟨rfl, rfl⟩
  | false => exact .inr ⟨rfl, rfl⟩

/-- Of two opposite skips with the same fields exactly one skips. -/
theorem oneSkips (s : State) {o o' : Operation} {word word' : Int} (hopposite : o.Opposite o')
    (h : o.Shapes (Instruction.decode word)) (h' : o'.Shapes (Instruction.decode word'))
    (hfields : o.SameFields (Instruction.decode word) (Instruction.decode word')) :
    s.OneSkips word word' := by
  cases hopposite with
  | immediate =>
    have hx : (Instruction.decode word).x = (Instruction.decode word').x := hfields 1 (by decide)
    have hy : (Instruction.decode word).y = (Instruction.decode word').y := hfields 2 (by decide)
    have hn : (Instruction.decode word).n = (Instruction.decode word').n := hfields 3 (by decide)
    have hnn : (Instruction.decode word).nn = (Instruction.decode word').nn := by
      rw [← UInt8.toNat_inj, Instruction.toNat_nn, Instruction.toNat_nn, hy, hn]
    refine oneSkips_of_skipIf _ (execute_of_shapes h (by decide) rfl) ?_
    rw [hx, hnn]
    exact execute_of_shapes h' (by decide) rfl
  | register =>
    have hx : (Instruction.decode word).x = (Instruction.decode word').x := hfields 1 (by decide)
    have hy : (Instruction.decode word).y = (Instruction.decode word').y := hfields 2 (by decide)
    refine oneSkips_of_skipIf _ (execute_of_shapes h (by decide) rfl) ?_
    rw [hx, hy]
    exact execute_of_shapes h' (by decide) rfl
  | key =>
    have hx : (Instruction.decode word).x = (Instruction.decode word').x := hfields 1 (by decide)
    refine oneSkips_of_skipIf _ (execute_of_shapes h (by decide) rfl) ?_
    rw [hx]
    exact execute_of_shapes h' (by decide) rfl

/-! ## The next address -/

/-- **Where execution goes on.** After a fetch and an execution that both succeed, the program
counter is the next address of the word that was fetched, for the state before the fetch. Of two
opposite skips with the same fields exactly one skips, in every state. And where the new program
counter lies beyond 0xFFE, the next fetch fails for the address after it. -/
theorem next_address_law {s fetched t : State} {word : UInt16}
    (hfetch : s.fetch = .ok (fetched, word)) (hexecute : fetched.execute word.toNat = .ok t) :
    t.pc.toNat = s.nextAddress ⟨word⟩ ∧
    (∀ (u : State) (o o' : Operation) (w w' : Int), o.Opposite o' →
      o.Shapes (Instruction.decode w) → o'.Shapes (Instruction.decode w') →
      o.SameFields (Instruction.decode w) (Instruction.decode w') → u.OneSkips w w') ∧
    (0xFFE < t.pc.toNat → t.fetch = .error (.outOfRange .fetch (t.pc.toNat + 1))) := by
  have hstep : s.step = .ok (t, word) := by
    unfold step
    exact bind_eq_ok_iff.mpr ⟨_, hfetch, bind_eq_ok_iff.mpr ⟨t, hexecute, rfl⟩⟩
  refine ⟨step_pc hstep, fun u _ _ _ _ => u.oneSkips, fun hbeyond => ?_⟩
  exact (fetch_eq_error_iff t _).mpr ⟨hbeyond, rfl⟩

/-- With V0 = 0xFF the target of BFFF is 0x10FE, beyond memory; the next fetch fails there. -/
theorem next_address_beyond_memory :
    ∃ s fetched t : State, s.fetch = .ok (fetched, 0xBFFF) ∧ fetched.execute 0xBFFF = .ok t ∧
      t.pc.toNat = 0x10FE ∧ t.fetch = .error (.outOfRange .fetch 0x10FF) := by
  let s := { (initial ⟨0, 0⟩).setRegister 0 0xFF with
    memory := Memory.initial.load 0x200 [0xBF, 0xFF] }
  have hfetch : s.fetch = .ok (s.advance, 0xBFFF) :=
    (fetch_eq_ok_iff s _ _).mpr ⟨by decide, rfl, by decide +kernel⟩
  have hexecute : s.advance.execute 0xBFFF =
      .ok (Operation.jumpOffset.perform Edge.standard ⟨0xBFFF⟩ s.advance) :=
    execute_of_shapes (o := .jumpOffset) (by decide) (by decide) rfl
  obtain ⟨hpc, -, hfail⟩ := next_address_law hfetch hexecute
  have hnext : s.nextAddress ⟨0xBFFF⟩ = 0x10FE := by decide +kernel
  exact ⟨s, s.advance, _, hfetch, hexecute, hpc.trans hnext, hfail (by decide)⟩

end State

end Chip8
