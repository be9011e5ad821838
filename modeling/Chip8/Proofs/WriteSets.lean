/-
Chip8.Proofs.WriteSets — what an operation can change, and what it leaves
alone.

A `Component` is a part of a state that is told apart here: a register and
a byte of memory each on its own, everything else as a whole.
`Operation.Writes` is the write set of an operation, component by
component, and `execute_frame` says that an execution changes nothing
outside of it.

The proof does not go through all operations for each component. Every
operation is put together from a few kinds of changes, such as another
program counter or a write of one register, and what such a change leaves
alone is said once (`same_of_pc`, `same_of_setRegister`, ...).
`Operation.perform_frame` then names the changes of each operation.

FX33 and FX55 write memory byte by byte. `getElem_foldl_writeAt` tells
what a list of such writes leaves at an address, and from it both that the
bytes of the block are the digits or registers that belong there, and that
all other bytes are the old ones.
-/
import Chip8.Proofs.ControlFlow

namespace Chip8

/-! ## Components -/

/-- A part of a state. -/
inductive Component where
  | keypad
  | rng
  | display
  | stack
  | memory (a : Fin 4096)
  | delayTimer
  | soundTimer
  | index
  | pc
  | register (k : Fin 16)
deriving DecidableEq

/-- A part has the same content in two states. -/
def Component.Same (s t : State) : Component → Prop
  | .keypad => t.keypad = s.keypad
  | .rng => t.rng = s.rng
  | .display => t.display = s.display
  | .stack => t.stack = s.stack
  | .memory a => t.memory[a] = s.memory[a]
  | .delayTimer => t.delayTimer = s.delayTimer
  | .soundTimer => t.soundTimer = s.soundTimer
  | .index => t.index = s.index
  | .pc => t.pc = s.pc
  | .register k => t.register k = s.register k

/-! ## Write sets -/

namespace Operation

/-- The operations that go on at another address: jumps, calls, returns and skips. -/
def branches : Operation → Bool
  | .jump | .jumpOffset | .call | .ret | .skipEqImmediate | .skipNeImmediate | .skipEqRegister
  | .skipNeRegister | .skipKeyPressed | .skipKeyNotPressed => true
  | _ => false

/-- The operations that put a result into VX and nothing into VF. -/
def setsRegister : Operation → Bool
  | .loadImmediate | .addImmediate | .copy | .or | .and | .xor | .random | .readDelayTimer
  | .waitKey => true
  | _ => false

/-- The operations that put a result into VX and then a flag into VF. -/
def setsRegisterAndFlag : Operation → Bool
  | .add | .subtract | .shiftRight | .subtractReverse | .shiftLeft => true
  | _ => false

/-- The parts of a state that an operation can change. -/
def Writes (i : Instruction) (s : State) (o : Operation) : Component → Prop
  | .keypad => False
  | .rng => o = .random
  | .display => o = .clearScreen ∨ o = .draw
  | .stack => o = .call ∨ o = .ret
  | .memory a =>
    (o = .storeBcd ∧ s.index.toNat ≤ a.val ∧ a.val ≤ s.index.toNat + 2) ∨
    (o = .storeRegisters ∧ s.index.toNat ≤ a.val ∧ a.val ≤ s.index.toNat + i.x.val)
  | .delayTimer => o = .setDelayTimer
  | .soundTimer => o = .setSoundTimer
  | .index => o = .loadIndex ∨ o = .addIndex ∨ o = .fontAddress
  | .pc => o.branches = true ∨ (o = .waitKey ∧ ∀ k, s.keypad.get k = false)
  | .register k =>
    (o.setsRegister = true ∧ k = i.x) ∨
    (o.setsRegisterAndFlag = true ∧ (k = i.x ∨ k.val = 15)) ∨
    (o = .draw ∧ k.val = 15) ∨
    (o = .loadRegisters ∧ k ≤ i.x)

instance (i : Instruction) (s : State) (o : Operation) : DecidablePred (o.Writes i s)
  | .keypad => inferInstanceAs (Decidable False)
  | .rng | .delayTimer | .soundTimer => inferInstanceAs (Decidable (o = _))
  | .display | .stack => inferInstanceAs (Decidable (o = _ ∨ o = _))
  | .index => inferInstanceAs (Decidable (o = _ ∨ o = _ ∨ o = _))
  | .pc => inferInstanceAs (Decidable (_ ∨ (_ ∧ ∀ k, s.keypad.get k = false)))
  | .memory a =>
    inferInstanceAs (Decidable ((_ ∧ s.index.toNat ≤ a.val ∧ _) ∨ (_ ∧ s.index.toNat ≤ a.val ∧ _)))
  | .register k =>
    inferInstanceAs
      (Decidable ((_ ∧ k = i.x) ∨ (_ ∧ (k = i.x ∨ k.val = 15)) ∨ (_ ∧ k.val = 15) ∨ (_ ∧ k ≤ i.x)))

end Operation

/-! ## Kinds of changes -/

namespace Component

variable {s t u : State} {c : Component}

theorem same_rfl : c.Same s s := by
  cases c <;> rfl

theorem Same.trans (h : c.Same s t) (h' : c.Same t u) : c.Same s u := by
  cases c <;> exact Eq.trans h' h

theorem same_of_pc (h : c ≠ .pc) (a : UInt16) : c.Same s { s with pc := a } := by
  cases c with
  | pc => exact absurd rfl h
  | _ => rfl

theorem same_of_index (h : c ≠ .index) (a : UInt16) : c.Same s { s with index := a } := by
  cases c with
  | index => exact absurd rfl h
  | _ => rfl

theorem same_of_stack_pc (hstack : c ≠ .stack) (hpc : c ≠ .pc) (stack : CallStack) (a : UInt16) :
    c.Same s { s with stack := stack, pc := a } := by
  cases c with
  | stack => exact absurd rfl hstack
  | pc => exact absurd rfl hpc
  | _ => rfl

theorem same_of_display (h : c ≠ .display) (picture : Screen) :
    c.Same s { s with display := picture } := by
  cases c with
  | display => exact absurd rfl h
  | _ => rfl

theorem same_of_rng (h : c ≠ .rng) (rng : Random) : c.Same s { s with rng := rng } := by
  cases c with
  | rng => exact absurd rfl h
  | _ => rfl

theorem same_of_delayTimer (h : c ≠ .delayTimer) (b : UInt8) :
    c.Same s { s with delayTimer := b } := by
  cases c with
  | delayTimer => exact absurd rfl h
  | _ => rfl

theorem same_of_soundTimer (h : c ≠ .soundTimer) (b : UInt8) :
    c.Same s { s with soundTimer := b } := by
  cases c with
  | soundTimer => exact absurd rfl h
  | _ => rfl

theorem same_of_setRegister {k : Fin 16} (h : c ≠ .register k) (b : UInt8) :
    c.Same s (s.setRegister k b) := by
  cases c with
  | register j =>
    have hne : k ≠ j := fun heq => h (congrArg register heq.symm)
    exact (s.register_setRegister k j b).trans (if_neg hne)
  | _ => rfl

theorem same_of_registers {registers : Registers}
    (h : ∀ k, c = .register k → registers.get k = s.register k) :
    c.Same s { s with registers := registers } := by
  cases c with
  | register k => exact h k rfl
  | _ => rfl

theorem same_of_memory (hframe : ∃ memory, t = { s with memory := memory })
    (h : ∀ a, c = .memory a → t.memory[a] = s.memory[a]) : c.Same s t := by
  obtain ⟨memory, rfl⟩ := hframe
  cases c with
  | memory a => exact h a rfl
  | _ => rfl

/-! ## The parts of the instruction set -/

theorem same_of_skipIf (h : c ≠ .pc) (condition : Bool) : c.Same s (s.skipIf condition) := by
  rw [s.skipIf_eq]
  exact same_of_pc h _

theorem same_of_applyAlu {f : Alu} {x : Fin 16} (hx : c ≠ .register x)
    (hflag : f.setsFlag = true → c ≠ .register 15) (y : Fin 16) :
    c.Same s (s.applyAlu f x y) := by
  unfold State.applyAlu
  cases hf : f.setsFlag with
  | false => exact same_of_setRegister hx _
  | true => exact (same_of_setRegister hx _).trans (same_of_setRegister (hflag hf) _)

/-- A key wait writes VX if a key is held, and the program counter if none is. -/
theorem same_of_waitForKey {x : Fin 16} (hx : c ≠ .register x)
    (hpc : (∀ k, s.keypad.get k = false) → c ≠ .pc) : c.Same s (s.waitForKey x) := by
  rw [s.waitForKey_eq]
  cases hkey : s.keypad.lowest? with
  | some key => exact same_of_setRegister hx _
  | none =>
    refine same_of_pc (hpc fun k => ?_) _
    have hnot := List.find?_eq_none.mp hkey k (List.mem_finRange k)
    simpa using hnot

end Component

/-! ## Writes to memory -/

/-- A write that does nothing outside memory, read at any address. -/
theorem getElem_writeAt (m : Memory) (address : Int) (b : UInt8) (a : Fin 4096) :
    (writeAt m (fun _ _ => m) address b)[a] = if address = (a.val : Int) then b else m[a] := by
  have ha := a.isLt
  unfold writeAt
  by_cases hin : 0 ≤ address ∧ address < (4096 : Nat)
  · rw [dif_pos hin]
    show (m.set address.toNat b _)[a.val] = _
    rw [Vector.getElem_set]
    by_cases heq : address = (a.val : Int)
    · rw [if_pos heq, if_pos (by omega)]
    · rw [if_neg heq, if_neg (by omega)]
      rfl
  · rw [dif_neg hin, if_neg (by omega)]

/-- After a list of writes an address holds `b`, if all that is written there is `b`, and something
is written there or `b` was there before. -/
theorem getElem_foldl_writeAt {ι : Type} (address : ι → Int) (value : ι → UInt8) (a : Fin 4096)
    (b : UInt8) (l : List ι) (m : Memory) (hall : ∀ k ∈ l, address k = (a.val : Int) → value k = b)
    (hsome : m[a] = b ∨ ∃ k ∈ l, address k = (a.val : Int)) :
    (l.foldl (fun m k => writeAt m (fun _ _ => m) (address k) (value k)) m)[a] = b := by
  induction l generalizing m with
  | nil =>
    rcases hsome with hold | ⟨k, hk, -⟩
    · exact hold
    · exact absurd hk List.not_mem_nil
  | cons k rest ih =>
    rw [List.foldl_cons]
    refine ih _ (fun j hj => hall j (List.mem_cons_of_mem k hj)) ?_
    rw [getElem_writeAt]
    by_cases hk : address k = (a.val : Int)
    · rw [if_pos hk]
      exact .inl (hall k List.mem_cons_self hk)
    · rw [if_neg hk]
      refine hsome.imp_right ?_
      rintro ⟨j, hj, heq⟩
      rcases List.mem_cons.mp hj with rfl | hrest
      · exact absurd heq hk
      · exact ⟨j, hrest, heq⟩

theorem getD_eq_of_getElem {m : Memory} {b d : UInt8} (a : Fin 4096) (h : m[a] = b) :
    m.getD a.val d = b := by
  rw [← h]
  simp [Vector.getD]

namespace State

variable (s : State) (x : Fin 16) (a : Fin 4096)

theorem blockAddress_eq_iff (k : Fin 16) :
    s.blockAddress x k = (a.val : Int) ↔ k ≤ x ∧ a.val = s.index.toNat + k.val := by
  have ha := a.isLt
  have hsize : (Memory.size : Int) = 4096 := rfl
  unfold blockAddress
  by_cases hk : k ≤ x
  · rw [if_pos hk]
    constructor
    · intro h
      exact ⟨hk, by omega⟩
    · rintro ⟨-, h⟩
      omega
  · rw [if_neg hk]
    constructor
    · intro h
      omega
    · rintro ⟨h, -⟩
      exact absurd h hk

/-- The writes of FX55: the registers and their places. -/
theorem storeRegisters_memory :
    (s.storeRegisters Edge.standard x).memory =
      (List.finRange 16).foldl
        (fun m k => writeAt m (fun _ _ => m) (s.blockAddress x k) (s.register k)) s.memory := by
  simp only [storeRegisters, Edge.standard]

/-- FX55 stores each of V0 to VX at its place. -/
theorem storeRegisters_block {k : Fin 16} (hk : k ≤ x) (ha : a.val = s.index.toNat + k.val) :
    (s.storeRegisters Edge.standard x).memory[a] = s.register k := by
  rw [storeRegisters_memory]
  refine getElem_foldl_writeAt (s.blockAddress x) s.register a _ (List.finRange 16) s.memory ?_
    (.inr ⟨k, List.mem_finRange k, (s.blockAddress_eq_iff x a k).mpr ⟨hk, ha⟩⟩)
  intro j _ hj
  obtain ⟨-, hja⟩ := (s.blockAddress_eq_iff x a j).mp hj
  obtain rfl : j = k := Fin.ext (by omega)
  rfl

/-- FX55 leaves every byte alone that does not lie in the block. -/
theorem storeRegisters_apart
    (ha : ¬ (s.index.toNat ≤ a.val ∧ a.val ≤ s.index.toNat + x.val)) :
    (s.storeRegisters Edge.standard x).memory[a] = s.memory[a] := by
  rw [storeRegisters_memory]
  refine getElem_foldl_writeAt (s.blockAddress x) s.register a _ (List.finRange 16) s.memory ?_
    (.inl rfl)
  intro j _ hj
  obtain ⟨hjx, hja⟩ := (s.blockAddress_eq_iff x a j).mp hj
  have hle : j.val ≤ x.val := hjx
  exact absurd ⟨by omega, by omega⟩ ha

/-- The writes of FX33: the digits and their places. -/
theorem storeDecimal_memory :
    (s.storeDecimal Edge.standard x).memory =
      (decimalDigits (s.register x)).zipIdx.foldl
        (fun m digit => writeAt m (fun _ _ => m) (s.index.toNat + digit.2 : Nat) digit.1)
        s.memory := by
  simp only [storeDecimal, Edge.standard]

/-- FX33 stores each of the three digits at its place. -/
theorem storeDecimal_block (k : Fin 3) (ha : a.val = s.index.toNat + k.val) :
    (s.storeDecimal Edge.standard x).memory[a] = (decimalDigits (s.register x))[k] := by
  have hmem : ∀ j : Fin 3,
      ((decimalDigits (s.register x))[j], j.val) ∈ (decimalDigits (s.register x)).zipIdx := by
    intro j
    exact List.mk_mem_zipIdx_iff_getElem?.mpr (List.getElem?_eq_getElem j.isLt)
  rw [storeDecimal_memory]
  refine getElem_foldl_writeAt (fun digit : UInt8 × Nat => (s.index.toNat + digit.2 : Nat))
    (fun digit => digit.1) a _ _ s.memory ?_ (.inr ⟨_, hmem k, by simp only; omega⟩)
  rintro ⟨b, j⟩ hj hja
  have hjk : j = k.val := by
    simp only at hja
    omega
  have hb := List.mk_mem_zipIdx_iff_getElem?.mp hj
  subst hjk
  exact (List.getElem?_eq_some_iff.mp hb).2.symm

/-- FX33 leaves every byte alone that is none of the three. -/
theorem storeDecimal_apart (ha : ¬ (s.index.toNat ≤ a.val ∧ a.val ≤ s.index.toNat + 2)) :
    (s.storeDecimal Edge.standard x).memory[a] = s.memory[a] := by
  rw [storeDecimal_memory]
  refine getElem_foldl_writeAt (fun digit : UInt8 × Nat => (s.index.toNat + digit.2 : Nat))
    (fun digit => digit.1) a _ _ s.memory ?_ (.inl rfl)
  rintro ⟨b, j⟩ hj hja
  have hlt : j < 3 := by
    have hb := List.mk_mem_zipIdx_iff_getElem?.mp hj
    exact (List.getElem?_eq_some_iff.mp hb).1
  simp only at hja
  exact absurd ⟨by omega, by omega⟩ ha

/-- FX65 leaves the registers above VX alone. -/
theorem loadRegisters_apart {k : Fin 16} (hk : ¬ k ≤ x) :
    (s.loadRegisters Edge.standard x).register k = s.register k := by
  have hout : ¬ s.blockAddress x k < Memory.size := by
    unfold blockAddress
    rw [if_neg hk]
    exact lt_irrefl _
  show (Vector.ofFn _)[k.val] = _
  rw [Vector.getElem_ofFn]
  exact if_neg hout

end State

/-! ## The frame law -/

open Component in
/-- An operation leaves everything alone that is not in its write set. -/
theorem Operation.perform_frame (o : Operation) (i : Instruction) (s : State) {c : Component}
    (h : ¬ o.Writes i s c) : c.Same s (o.perform Edge.standard i s) := by
  have hne : ∀ {d : Component}, o.Writes i s d → c ≠ d := by
    rintro d hd rfl
    exact h hd
  cases o with
  | clearScreen => exact same_of_display (hne (.inl rfl)) _
  | ret => exact same_of_stack_pc (hne (.inr rfl)) (hne (.inl rfl)) _ _
  | systemCall => exact same_rfl
  | jump | jumpOffset => exact same_of_pc (hne (.inl rfl)) _
  | call => exact same_of_stack_pc (hne (.inl rfl)) (hne (.inl rfl)) _ _
  | skipEqImmediate | skipNeImmediate | skipEqRegister | skipNeRegister | skipKeyPressed
  | skipKeyNotPressed => exact same_of_skipIf (hne (.inl rfl)) _
  | loadImmediate | addImmediate | readDelayTimer =>
    exact same_of_setRegister (hne (.inl ⟨rfl, rfl⟩)) _
  | copy | or | and | xor =>
    exact same_of_applyAlu (hne (.inl ⟨rfl, rfl⟩)) (fun hflag => by cases hflag) i.y
  | add | subtract | shiftRight | subtractReverse | shiftLeft =>
    exact same_of_applyAlu (hne (.inr (.inl ⟨rfl, .inl rfl⟩)))
      (fun _ => hne (.inr (.inl ⟨rfl, .inr rfl⟩))) i.y
  | loadIndex => exact same_of_index (hne (.inl rfl)) _
  | addIndex => exact same_of_index (hne (.inr (.inl rfl))) _
  | fontAddress => exact same_of_index (hne (.inr (.inr rfl))) _
  | random =>
    exact (same_of_setRegister (hne (.inl ⟨rfl, rfl⟩)) _).trans (same_of_rng (hne rfl) _)
  | draw =>
    exact (same_of_setRegister (hne (.inr (.inr (.inl ⟨rfl, rfl⟩)))) _).trans
      (same_of_display (hne (.inr rfl)) _)
  | waitKey =>
    exact same_of_waitForKey (hne (.inl ⟨rfl, rfl⟩)) fun hnone => hne (.inr ⟨rfl, hnone⟩)
  | setDelayTimer => exact same_of_delayTimer (hne rfl) _
  | setSoundTimer => exact same_of_soundTimer (hne rfl) _
  | storeBcd =>
    refine same_of_memory (s.storeDecimal_frame Edge.standard i.x) fun a hc => ?_
    exact s.storeDecimal_apart i.x a fun hin => hne (d := .memory a) (.inl ⟨rfl, hin⟩) hc
  | storeRegisters =>
    refine same_of_memory ⟨_, rfl⟩ fun a hc => ?_
    exact s.storeRegisters_apart i.x a fun hin => hne (d := .memory a) (.inr ⟨rfl, hin⟩) hc
  | loadRegisters =>
    refine same_of_registers fun k hc => s.loadRegisters_apart i.x fun hle => ?_
    exact hne (d := .register k) (.inr (.inr (.inr ⟨rfl, hle⟩))) hc

namespace State

/-- **The frame law of the instruction set.** An execution that succeeds is that of the operation
which the word names, and everything outside the write set of this operation is as before. The
blocks in the write sets of FX33 and FX55 lie in memory, and each of their bytes is written: the
digits of VX, or the registers V0 to VX. -/
theorem execute_frame {s t : State} {word : Int} (h : s.execute word = .ok t) :
    ∃ o, firstMatch opcodeTable word = some o ∧
      (∀ c, ¬ o.Writes (Instruction.decode word) s c → c.Same s t) ∧
      (o = .storeBcd → s.index.toNat + 2 ≤ 0xFFF ∧
        ∀ (a : Fin 4096) (k : Fin 3), a.val = s.index.toNat + k.val →
          t.memory[a] = (decimalDigits (s.register (Instruction.decode word).x))[k]) ∧
      (o = .storeRegisters → s.index.toNat + (Instruction.decode word).x.val ≤ 0xFFF ∧
        ∀ (a : Fin 4096) (k : Fin 16), k ≤ (Instruction.decode word).x →
          a.val = s.index.toNat + k.val → t.memory[a] = s.register k) := by
  obtain ⟨o, ho, hpermit, rfl⟩ := (executeWith_eq_ok_iff Edge.standard s t word).mp h
  refine ⟨o, ho, fun c hc => o.perform_frame _ s hc, ?_, ?_⟩
  · rintro rfl
    have hin := (Access.permit_eq_ok_iff .write s.index.toNat 3).mp hpermit
    exact ⟨by omega, fun a k => s.storeDecimal_block _ a k⟩
  · rintro rfl
    have hin := (Access.permit_eq_ok_iff .write s.index.toNat _).mp hpermit
    exact ⟨by omega, fun a k => s.storeRegisters_block _ a⟩

/-- At 0xFFD the block of F255 ends with the last byte of memory. It holds V2 then; the byte before
the block, the address register and V3 are as before. -/
theorem execute_frame_at_end :
    ∃ t, execute { (initial ⟨0, 0⟩).setRegister 2 7 with index := 0xFFD } 0xF255 = .ok t ∧
      t.memory.getD 0xFFF 0 = 7 ∧ t.memory.getD 0xFFC 1 = 0 ∧ t.index = 0xFFD ∧
      t.register 3 = 0 := by
  have hexecute : execute { (initial ⟨0, 0⟩).setRegister 2 7 with index := 0xFFD } 0xF255 =
      .ok (storeRegisters Edge.standard
        { (initial ⟨0, 0⟩).setRegister 2 7 with index := 0xFFD } 2) := rfl
  obtain ⟨o, ho, hframe, -, hblock⟩ := execute_frame hexecute
  have hnamed : firstMatch opcodeTable 0xF255 = some .storeRegisters := by decide
  obtain rfl : Operation.storeRegisters = o := Option.some.inj (hnamed.symm.trans ho)
  have hblank : (initial ⟨0, 0⟩).memory[(0xFFC : Fin 4096)] = 0 := by decide +kernel
  refine ⟨_, hexecute, ?_, ?_, hframe .index (by decide), hframe (.register 3) (by decide)⟩
  · exact getD_eq_of_getElem 0xFFF ((hblock rfl).2 0xFFF 2 (by decide) (by decide))
  · exact getD_eq_of_getElem 0xFFC (Eq.trans (hframe (.memory 0xFFC) (by decide)) hblank)

end State

end Chip8
