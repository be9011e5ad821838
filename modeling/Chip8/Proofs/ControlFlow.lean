/-
Chip8.Proofs.ControlFlow — where execution goes on, and what an operation
does to the call stack and to the keys.

* `perform_pc` — the program counter after an operation, as a natural
  number. `Operation.destination` computes it without any word size: the
  address of the following word, moved by a skip or a key wait, or an
  address from the word, from V0 or from the stack.
* `perform_stack` — calls push, returns pop, and nothing else touches the
  stack.
* `perform_keypad` — no operation touches the keys.
* `step_flow` — the same for a whole step.

A fetch leaves the program counter between 2 and 0x1000, so none of the
additions and subtractions on sixteen bits wraps after it
(`toNat_add_two`, `toNat_sub_two`, `toNat_offset`).
-/
import Chip8.Proofs.Execution

namespace Chip8

/-! ## Addresses on sixteen bits -/

theorem toNat_add_two {a : UInt16} (h : a.toNat ≤ 0x1000) : (a + 2).toNat = a.toNat + 2 := by
  have htwo : (2 : UInt16).toNat = 2 := rfl
  rw [UInt16.toNat_add, htwo]
  omega

theorem toNat_sub_two {a : UInt16} (h : 2 ≤ a.toNat) : (a - 2).toNat = a.toNat - 2 := by
  have htwo : (2 : UInt16).toNat = 2 := rfl
  have hle : (2 : UInt16) ≤ a := UInt16.le_iff_toNat_le.mpr h
  rw [UInt16.toNat_sub_of_le a 2 hle, htwo]

/-- An address of an instruction has twelve bits. -/
theorem toNat_nnn (i : Instruction) : i.nnn.toNat = i.raw.toNat % 4096 := by
  show (i.raw &&& 0xFFF).toNat = _
  rw [UInt16.toNat_and]
  exact Nat.and_two_pow_sub_one_eq_mod i.raw.toNat 12

/-- Twelve bits and a byte do not exceed 0x10FE, so their sum does not wrap. -/
theorem toNat_offset (i : Instruction) (b : UInt8) :
    (i.nnn + b.toUInt16).toNat = i.nnn.toNat + b.toNat := by
  have hnnn := toNat_nnn i
  have hb := b.toNat_lt
  rw [UInt16.toNat_add, UInt8.toNat_toUInt16]
  omega

namespace State

/-- The register V0. -/
theorem first_register (s : State) : s.registers[0]?.getD 0 = s.register 0 := by
  rw [Vector.getElem?_eq_getElem (by decide)]
  rfl

/-! ## What the parts of the instruction set leave alone -/

theorem skipIf_eq (s : State) (condition : Bool) :
    s.skipIf condition = { s with pc := if condition then s.pc + 2 else s.pc } := by
  cases condition with
  | false => rfl
  | true => rfl

theorem applyAlu_frame (s : State) (f : Alu) (x y : Fin 16) :
    ∃ registers, s.applyAlu f x y = { s with registers := registers } := by
  unfold applyAlu
  cases f.setsFlag with
  | false => exact ⟨_, rfl⟩
  | true => exact ⟨_, rfl⟩

theorem drawSprite_frame (edge : Edge) (s : State) (x y n : Fin 16) :
    ∃ registers display, s.drawSprite edge x y n =
      { s with registers := registers, display := display } :=
  ⟨_, _, rfl⟩

theorem storeDecimal_frame (edge : Edge) (s : State) (x : Fin 16) :
    ∃ memory, s.storeDecimal edge x = { s with memory := memory } :=
  ⟨_, rfl⟩

theorem waitForKey_eq (s : State) (k : Fin 16) :
    s.waitForKey k =
      match s.keypad.lowest? with
      | some key => s.setRegister k (UInt8.ofNat key.val)
      | none => { s with pc := s.pc - 2 } := rfl

@[simp] theorem skipIf_stack (s : State) (condition : Bool) :
    (s.skipIf condition).stack = s.stack := by
  rw [skipIf_eq]

@[simp] theorem skipIf_keypad (s : State) (condition : Bool) :
    (s.skipIf condition).keypad = s.keypad := by
  rw [skipIf_eq]

@[simp] theorem applyAlu_pc (s : State) (f : Alu) (x y : Fin 16) :
    (s.applyAlu f x y).pc = s.pc := by
  obtain ⟨registers, h⟩ := s.applyAlu_frame f x y
  rw [h]

@[simp] theorem applyAlu_stack (s : State) (f : Alu) (x y : Fin 16) :
    (s.applyAlu f x y).stack = s.stack := by
  obtain ⟨registers, h⟩ := s.applyAlu_frame f x y
  rw [h]

@[simp] theorem applyAlu_keypad (s : State) (f : Alu) (x y : Fin 16) :
    (s.applyAlu f x y).keypad = s.keypad := by
  obtain ⟨registers, h⟩ := s.applyAlu_frame f x y
  rw [h]

@[simp] theorem drawSprite_stack (edge : Edge) (s : State) (x y n : Fin 16) :
    (s.drawSprite edge x y n).stack = s.stack := by
  obtain ⟨registers, display, h⟩ := s.drawSprite_frame edge x y n
  rw [h]

@[simp] theorem drawSprite_keypad (edge : Edge) (s : State) (x y n : Fin 16) :
    (s.drawSprite edge x y n).keypad = s.keypad := by
  obtain ⟨registers, display, h⟩ := s.drawSprite_frame edge x y n
  rw [h]

@[simp] theorem storeDecimal_stack (edge : Edge) (s : State) (x : Fin 16) :
    (s.storeDecimal edge x).stack = s.stack := by
  obtain ⟨memory, h⟩ := s.storeDecimal_frame edge x
  rw [h]

@[simp] theorem storeDecimal_keypad (edge : Edge) (s : State) (x : Fin 16) :
    (s.storeDecimal edge x).keypad = s.keypad := by
  obtain ⟨memory, h⟩ := s.storeDecimal_frame edge x
  rw [h]

@[simp] theorem waitForKey_stack (s : State) (k : Fin 16) : (s.waitForKey k).stack = s.stack := by
  rw [waitForKey_eq]
  cases s.keypad.lowest? with
  | none => rfl
  | some key => rfl

@[simp] theorem waitForKey_keypad (s : State) (k : Fin 16) :
    (s.waitForKey k).keypad = s.keypad := by
  rw [waitForKey_eq]
  cases s.keypad.lowest? with
  | none => rfl
  | some key => rfl

theorem waitForKey_pc (s : State) (k : Fin 16) :
    (s.waitForKey k).pc = if s.keypad.lowest?.isNone then s.pc - 2 else s.pc := by
  rw [waitForKey_eq]
  cases s.keypad.lowest? with
  | none => rfl
  | some key => rfl

end State

/-! ## Operations -/

namespace Operation

/-- Whether an operation passes over the next word. -/
def skips (i : Instruction) (s : State) : Operation → Bool
  | .skipEqImmediate => s.register i.x == i.nn
  | .skipNeImmediate => s.register i.x != i.nn
  | .skipEqRegister => s.register i.x == s.register i.y
  | .skipNeRegister => s.register i.x != s.register i.y
  | .skipKeyPressed => s.keyOf i.x
  | .skipKeyNotPressed => !s.keyOf i.x
  | _ => false

/-- The address at which execution goes on after an operation; `next` is the address of the
following word. -/
def destination (i : Instruction) (s : State) (next : Nat) : Operation → Nat
  | .jump | .call => i.nnn.toNat
  | .ret => (s.stack.top Edge.standard.address).toNat
  | .jumpOffset => i.nnn.toNat + (s.registers[0]?.getD 0).toNat
  | .waitKey => if s.keypad.lowest?.isNone then next - 2 else next
  | o => if o.skips i s then next + 2 else next

/-- No destination depends on the program counter of the state but through `next`. -/
theorem destination_advance (o : Operation) (i : Instruction) (s : State) (next : Nat) :
    o.destination i s.advance next = o.destination i s next := by
  cases o <;> rfl

theorem skipIf_destination {s : State} (h : s.pc.toNat ≤ 0x1000) (condition : Bool) :
    (s.skipIf condition).pc.toNat = if condition then s.pc.toNat + 2 else s.pc.toNat := by
  rw [s.skipIf_eq]
  cases condition with
  | false => rfl
  | true => exact toNat_add_two h

/-- After a fetch the program counter goes where the natural numbers say. -/
theorem perform_pc (o : Operation) (i : Instruction) {s : State} (hlow : 2 ≤ s.pc.toNat)
    (hhigh : s.pc.toNat ≤ 0x1000) :
    (o.perform Edge.standard i s).pc.toNat = o.destination i s s.pc.toNat := by
  cases o with
  | skipEqImmediate | skipNeImmediate | skipEqRegister | skipNeRegister | skipKeyPressed
  | skipKeyNotPressed => exact skipIf_destination hhigh _
  | jumpOffset =>
    rw [destination, s.first_register]
    exact toNat_offset i (s.register 0)
  | waitKey =>
    simp only [perform, destination, State.waitForKey_pc]
    by_cases h : s.keypad.lowest?.isNone
    · rw [if_pos h, if_pos h, toNat_sub_two hlow]
    · rw [if_neg h, if_neg h]
  | copy | or | and | xor | add | subtract | shiftRight | subtractReverse | shiftLeft =>
    exact congrArg UInt16.toNat (s.applyAlu_pc _ i.x i.y)
  | _ => rfl

/-- The stack after an operation; `next` is the address of the following word. -/
def stackAfter (edge : Edge) (stack : CallStack) (next : UInt16) : Operation → CallStack
  | .call => stack.push edge.slot next
  | .ret => stack.pop edge.slot
  | _ => stack

theorem stackAfter_of_other (edge : Edge) (stack : CallStack) (next : UInt16) {o : Operation}
    (hcall : o ≠ .call) (hret : o ≠ .ret) : o.stackAfter edge stack next = stack := by
  cases o with
  | call => exact absurd rfl hcall
  | ret => exact absurd rfl hret
  | _ => rfl

/-- Calls push, returns pop, and nothing else touches the stack. -/
theorem perform_stack (edge : Edge) (o : Operation) (i : Instruction) (s : State) :
    (o.perform edge i s).stack = o.stackAfter edge s.stack s.pc := by
  cases o with
  | skipEqImmediate | skipNeImmediate | skipEqRegister | skipNeRegister | skipKeyPressed
  | skipKeyNotPressed => exact s.skipIf_stack _
  | copy | or | and | xor | add | subtract | shiftRight | subtractReverse | shiftLeft =>
    exact s.applyAlu_stack _ i.x i.y
  | waitKey => exact s.waitForKey_stack i.x
  | draw => exact s.drawSprite_stack edge i.x i.y i.n
  | storeBcd => exact s.storeDecimal_stack edge i.x
  | _ => rfl

theorem perform_keypad (edge : Edge) (o : Operation) (i : Instruction) (s : State) :
    (o.perform edge i s).keypad = s.keypad := by
  cases o with
  | skipEqImmediate | skipNeImmediate | skipEqRegister | skipNeRegister | skipKeyPressed
  | skipKeyNotPressed => exact s.skipIf_keypad _
  | copy | or | and | xor | add | subtract | shiftRight | subtractReverse | shiftLeft =>
    exact s.applyAlu_keypad _ i.x i.y
  | waitKey => exact s.waitForKey_keypad i.x
  | draw => exact s.drawSprite_keypad edge i.x i.y i.n
  | storeBcd => exact s.storeDecimal_keypad edge i.x
  | _ => rfl

end Operation

/-! ## Steps -/

namespace State

/-- What a step does to the program counter, to the stack and to the keys. -/
theorem step_flow {s t : State} {word : UInt16} (h : s.step = .ok (t, word)) :
    ∃ o, firstMatch opcodeTable word.toNat = some o ∧ o.permit ⟨word⟩ s.advance = .ok () ∧
      t.pc.toNat = o.destination ⟨word⟩ s (s.pc.toNat + 2) ∧
      t.stack = o.stackAfter Edge.standard s.stack (s.pc + 2) ∧ t.keypad = s.keypad := by
  obtain ⟨hpc, -, o, ho, hp, rfl⟩ := (step_eq_ok_iff s t word).mp h
  have hnext : s.advance.pc.toNat = s.pc.toNat + 2 := toNat_add_two (by omega)
  refine ⟨o, ho, hp, ?_, o.perform_stack .., o.perform_keypad ..⟩
  rw [o.perform_pc ⟨word⟩ (by omega) (by omega), hnext, o.destination_advance]

end State

end Chip8
