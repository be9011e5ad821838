/-
Chip8.Proofs.Blocks — FX55 and FX65 undo each other.

A state holds a block if the bytes from I on are the registers V0 to VX
(`HoldsBlock`). Storing brings this about, and so does loading; storing a
block that is held changes nothing (`storeRegisters_of_holdsBlock`). The
two round trips are put together from these.

Both operations go over all sixteen registers and send the slots above X
to the first address past memory. For a block that ends with the last byte
of memory this address is the next one, and still no byte of memory and no
register goes by it (`storeRegisters_apart`, `loadRegisters_apart`).
-/
import Chip8.Proofs.Bounds
import Chip8.Proofs.Shapes
import Chip8.Proofs.WriteSets

namespace Chip8

/-! ## The words -/

namespace Instruction

/-- The word FX55. -/
def storeBlock (x : Fin 16) : Int := 0xF055 + 256 * x.val

/-- The word FX65. -/
def loadBlock (x : Fin 16) : Int := 0xF065 + 256 * x.val

theorem decode_storeBlock (x : Fin 16) :
    Operation.storeRegisters.Shapes (decode (storeBlock x)) ∧ (decode (storeBlock x)).x = x := by
  revert x
  decide +kernel

theorem decode_loadBlock (x : Fin 16) :
    Operation.loadRegisters.Shapes (decode (loadBlock x)) ∧ (decode (loadBlock x)).x = x := by
  revert x
  decide +kernel

end Instruction

namespace State

variable {s : State} {x : Fin 16}

/-! ## Blocks in memory -/

/-- The bytes from I on are the registers V0 to VX. -/
def HoldsBlock (s : State) (x : Fin 16) : Prop :=
  ∀ (a : Fin 4096) (k : Fin 16), k ≤ x → a.val = s.index.toNat + k.val →
    s.memory.get a = s.register k

@[simp] theorem storeRegisters_index (edge : Edge) (s : State) (x : Fin 16) :
    (s.storeRegisters edge x).index = s.index := by
  rw [storeRegisters]

@[simp] theorem storeRegisters_register (edge : Edge) (s : State) (x k : Fin 16) :
    (s.storeRegisters edge x).register k = s.register k := by
  rw [storeRegisters, register, register]

@[simp] theorem loadRegisters_index (edge : Edge) (s : State) (x : Fin 16) :
    (s.loadRegisters edge x).index = s.index := by
  rw [loadRegisters]

@[simp] theorem loadRegisters_memory (edge : Edge) (s : State) (x : Fin 16) :
    (s.loadRegisters edge x).memory = s.memory := by
  rw [loadRegisters]

/-- FX55 changes memory alone. -/
theorem storeRegisters_frame (edge : Edge) (s : State) (x : Fin 16) :
    s.storeRegisters edge x = { s with memory := (s.storeRegisters edge x).memory } := by
  rw [storeRegisters]

/-- FX65 changes registers alone. -/
theorem loadRegisters_frame (edge : Edge) (s : State) (x : Fin 16) :
    s.loadRegisters edge x = { s with registers := (s.loadRegisters edge x).registers } := by
  rw [loadRegisters]

/-- A block that fits in memory is permitted. -/
theorem permit_block (access : Access) {i : Instruction} (hx : i.x = x)
    (h : s.index.toNat + x.val ≤ 0xFFF) :
    access.permit s.index.toNat (i.x.val + 1) = .ok () := by
  rw [Access.permit_eq_ok_iff, hx]
  omega

theorem execute_storeBlock (h : s.index.toNat + x.val ≤ 0xFFF) :
    s.execute (Instruction.storeBlock x) = .ok (s.storeRegisters Edge.standard x) := by
  obtain ⟨hshapes, hx⟩ := Instruction.decode_storeBlock x
  rw [execute_of_shapes hshapes (by decide) (permit_block .write hx h), Operation.perform, hx]

theorem execute_loadBlock (h : s.index.toNat + x.val ≤ 0xFFF) :
    s.execute (Instruction.loadBlock x) = .ok (s.loadRegisters Edge.standard x) := by
  obtain ⟨hshapes, hx⟩ := Instruction.decode_loadBlock x
  rw [execute_of_shapes hshapes (by decide) (permit_block .read hx h), Operation.perform, hx]

theorem storeRegisters_holdsBlock (s : State) (x : Fin 16) :
    (s.storeRegisters Edge.standard x).HoldsBlock x := by
  intro a k hk ha
  rw [storeRegisters_index] at ha
  rw [storeRegisters_register]
  exact s.storeRegisters_block x a hk ha

/-- FX65 loads each of V0 to VX from its place. -/
theorem loadRegisters_holdsBlock (s : State) (x : Fin 16) :
    (s.loadRegisters Edge.standard x).HoldsBlock x := by
  intro a k hk ha
  rw [loadRegisters_index] at ha
  have haddress := (s.blockAddress_eq_iff x a k).mpr ⟨hk, ha⟩
  have hin : s.blockAddress x k < Memory.size := by
    rw [haddress]
    exact Int.ofNat_lt.mpr a.isLt
  have hload : (s.loadRegisters Edge.standard x).register k = s.memory.get a := by
    show (Vector.ofFn _)[k.val] = _
    rw [Vector.getElem_ofFn, if_pos hin, haddress, readAt_of_lt _ _ a.isLt]
    rfl
  rw [loadRegisters_memory, hload]

/-- A store of a block that memory holds already changes nothing. -/
theorem storeRegisters_of_holdsBlock (h : s.HoldsBlock x) :
    s.storeRegisters Edge.standard x = s := by
  have hmemory : (s.storeRegisters Edge.standard x).memory = s.memory := by
    refine Vector.ext fun j hj => ?_
    by_cases hin : s.index.toNat ≤ j ∧ j ≤ s.index.toNat + x.val
    · have hplace : j = s.index.toNat + (j - s.index.toNat) := by omega
      have hk : (⟨j - s.index.toNat, by omega⟩ : Fin 16) ≤ x := by
        show j - s.index.toNat ≤ x.val
        omega
      exact (s.storeRegisters_block x ⟨j, hj⟩ hk hplace).trans (h ⟨j, hj⟩ _ hk hplace).symm
    · exact s.storeRegisters_apart x ⟨j, hj⟩ hin
  rw [storeRegisters_frame, hmemory]

/-! ## Round trips -/

/-- A block that has been stored is loaded into any register file. -/
theorem register_load_of_store (h : s.index.toNat + x.val ≤ 0xFFF) {u : State}
    (hmemory : u.memory = (s.storeRegisters Edge.standard x).memory) (hindex : u.index = s.index)
    {k : Fin 16} (hk : k ≤ x) : (u.loadRegisters Edge.standard x).register k = s.register k := by
  have hle : k.val ≤ x.val := hk
  obtain ⟨a, ha⟩ : ∃ a : Fin 4096, a.val = s.index.toNat + k.val := ⟨⟨_, by omega⟩, rfl⟩
  have hload := u.loadRegisters_holdsBlock x a k hk (by rw [loadRegisters_index, hindex, ha])
  have hstore := s.storeRegisters_holdsBlock x a k hk (by rw [storeRegisters_index, ha])
  rw [← hload, loadRegisters_memory, hmemory, hstore, storeRegisters_register]

/-- A block that has been loaded is stored without a change. -/
theorem execute_store_of_load (h : s.index.toNat + x.val ≤ 0xFFF) :
    (s.loadRegisters Edge.standard x).execute (Instruction.storeBlock x) =
      .ok (s.loadRegisters Edge.standard x) := by
  have hfits : (s.loadRegisters Edge.standard x).index.toNat + x.val ≤ 0xFFF := by
    rw [loadRegisters_index]
    exact h
  rw [execute_storeBlock hfits, storeRegisters_of_holdsBlock (s.loadRegisters_holdsBlock x)]

/-- **Blocks of registers make the round trip.** FX55 stores V0 to VX and changes no other byte. In
any state with this memory and I, FX65 gives back the registers that were stored and leaves those
above VX alone. And FX65 followed by FX55 leaves memory as it was. -/
theorem block_round_trips (h : s.index.toNat + x.val ≤ 0xFFF) :
    (∃ t, s.execute (Instruction.storeBlock x) = .ok t ∧ t = { s with memory := t.memory } ∧
      (∀ (a : Fin 4096) (k : Fin 16), k ≤ x → a.val = s.index.toNat + k.val →
        t.memory[a] = s.register k) ∧
      (∀ a : Fin 4096, ¬ (s.index.toNat ≤ a.val ∧ a.val ≤ s.index.toNat + x.val) →
        t.memory[a] = s.memory[a]) ∧
      ∀ u : State, u.memory = t.memory → u.index = s.index →
        ∃ v, u.execute (Instruction.loadBlock x) = .ok v ∧ v = { u with registers := v.registers } ∧
          (∀ k, k ≤ x → v.register k = s.register k) ∧
          ∀ k, ¬ k ≤ x → v.register k = u.register k) ∧
    ∃ u v, s.execute (Instruction.loadBlock x) = .ok u ∧
      u.execute (Instruction.storeBlock x) = .ok v ∧ v.memory = s.memory ∧ v = u := by
  constructor
  · refine ⟨s.storeRegisters Edge.standard x, execute_storeBlock h, storeRegisters_frame .., ?_,
      s.storeRegisters_apart x, ?_⟩
    · intro a k hk ha
      exact s.storeRegisters_block x a hk ha
    · intro u hmemory hindex
      have hfits : u.index.toNat + x.val ≤ 0xFFF := by rw [hindex]; exact h
      exact ⟨u.loadRegisters Edge.standard x, execute_loadBlock hfits, loadRegisters_frame ..,
        fun k hk => register_load_of_store h hmemory hindex hk,
        fun k hk => u.loadRegisters_apart x hk⟩
  · exact ⟨s.loadRegisters Edge.standard x, s.loadRegisters Edge.standard x, execute_loadBlock h,
      execute_store_of_load h, loadRegisters_memory .., rfl⟩

/-- The block of all registers at 0xFF0 ends with the last byte of memory. VF is stored there, and
loaded again into blank registers. -/
theorem block_round_trips_at_end :
    ∃ t v : State,
      { (initial ⟨0, 0⟩).setRegister 15 7 with index := 0xFF0 }.execute 0xFF55 = .ok t ∧
      { initial ⟨0, 0⟩ with memory := t.memory, index := 0xFF0 }.execute 0xFF65 = .ok v ∧
      t.memory.getD 0xFFF 0 = 7 ∧ v.register 15 = 7 := by
  have hstoreWord : Instruction.storeBlock 15 = 0xFF55 := by decide
  have hloadWord : Instruction.loadBlock 15 = 0xFF65 := by decide
  have hseven : ((initial ⟨0, 0⟩).setRegister 15 7).register 15 = 7 := by
    rw [register_setRegister, if_pos rfl]
  obtain ⟨⟨t, ht, -, hblock, -, hloads⟩, -⟩ := block_round_trips
    (s := { (initial ⟨0, 0⟩).setRegister 15 7 with index := 0xFF0 }) (x := 15) (by decide)
  obtain ⟨v, hv, -, hregisters, -⟩ :=
    hloads { initial ⟨0, 0⟩ with memory := t.memory, index := 0xFF0 } rfl rfl
  rw [hstoreWord] at ht
  rw [hloadWord] at hv
  refine ⟨t, v, ht, hv, ?_, (hregisters 15 (by decide)).trans hseven⟩
  exact getD_eq_of_getElem 0xFFF ((hblock 0xFFF 15 (by decide) (by decide)).trans hseven)

end State

end Chip8
