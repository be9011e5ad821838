/-
Chip8.Proofs.DecimalDigits — FX33 stores the digits that F265 loads.

A state holds the digits of a byte if they stand from I on, the hundreds
first (`HoldsDigits`). FX33 brings this about for VX, and changes nothing
where it holds already (`storeDecimal_of_holdsDigits`), so a second FX33
leaves the state alone. F265 loads a block of three bytes, which by
Chip8.Proofs.Blocks are the same three.

The digits are those of the VX that FX33 read, so it does not matter that
F265 overwrites VX itself if X is 0, 1 or 2.
-/
import Chip8.Proofs.Blocks

namespace Chip8

namespace Instruction

/-- The word FX33. -/
def storeDigits (x : Fin 16) : Int := 0xF033 + 256 * x.val

theorem decode_storeDigits (x : Fin 16) :
    Operation.storeBcd.Shapes (decode (storeDigits x)) ∧ (decode (storeDigits x)).x = x := by
  revert x
  decide +kernel

end Instruction

namespace State

variable {s : State} {x : Fin 16}

/-! ## Digits of a byte -/

/-- The digit of a byte at a place, the hundreds at place 0. -/
def decimalDigit (b : UInt8) (k : Nat) : UInt8 := (decimalDigits b).getD k 0

theorem toNat_decimalDigit (b : UInt8) :
    (decimalDigit b 0).toNat = b.toNat / 100 ∧ (decimalDigit b 1).toNat = b.toNat / 10 % 10 ∧
      (decimalDigit b 2).toNat = b.toNat % 10 := by
  have hlt : b.toNat < 256 := b.toNat_lt
  have hread : ∀ n < 256, (UInt8.ofNat n).toNat = n := fun n hn => UInt8.toNat_ofNat_of_lt' hn
  exact ⟨hread _ (by omega), hread _ (by omega), hread _ (by omega)⟩

/-- Three digits below ten stand for the byte. -/
theorem decimalDigit_sum (b : UInt8) :
    (decimalDigit b 0).toNat ≤ 9 ∧ (decimalDigit b 1).toNat ≤ 9 ∧ (decimalDigit b 2).toNat ≤ 9 ∧
      100 * (decimalDigit b 0).toNat + 10 * (decimalDigit b 1).toNat + (decimalDigit b 2).toNat =
        b.toNat := by
  have hlt : b.toNat < 256 := b.toNat_lt
  obtain ⟨hhundreds, htens, hunits⟩ := toNat_decimalDigit b
  omega

/-! ## Digits in memory -/

/-- The bytes at I, I + 1 and I + 2 are the digits of a byte. -/
def HoldsDigits (s : State) (b : UInt8) : Prop :=
  ∀ (a : Fin 4096) (k : Nat), k < 3 → a.val = s.index.toNat + k →
    s.memory.get a = decimalDigit b k

/-- FX33 changes memory alone. -/
theorem storeDecimal_eq (edge : Edge) (s : State) (x : Fin 16) :
    s.storeDecimal edge x = { s with memory := (s.storeDecimal edge x).memory } := by
  obtain ⟨memory, h⟩ := s.storeDecimal_frame edge x
  rw [h]

@[simp] theorem storeDecimal_index (edge : Edge) (s : State) (x : Fin 16) :
    (s.storeDecimal edge x).index = s.index := by
  rw [storeDecimal_eq]

@[simp] theorem storeDecimal_register (edge : Edge) (s : State) (x k : Fin 16) :
    (s.storeDecimal edge x).register k = s.register k := by
  rw [storeDecimal_eq, register, register]

theorem storeDecimal_holdsDigits (s : State) (x : Fin 16) :
    (s.storeDecimal Edge.standard x).HoldsDigits (s.register x) := by
  intro a k hk ha
  rw [storeDecimal_index] at ha
  have hdigit : decimalDigit (s.register x) k = (decimalDigits (s.register x))[k] := by
    rw [decimalDigit, List.getD_eq_getElem?_getD, List.getElem?_eq_getElem hk, Option.getD_some]
  rw [hdigit]
  exact s.storeDecimal_block x a ⟨k, hk⟩ ha

/-- The digits of VX that memory holds already are stored without a change. -/
theorem storeDecimal_of_holdsDigits (h : s.HoldsDigits (s.register x)) :
    s.storeDecimal Edge.standard x = s := by
  have hmemory : (s.storeDecimal Edge.standard x).memory = s.memory := by
    refine Vector.ext fun j hj => ?_
    by_cases hin : s.index.toNat ≤ j ∧ j ≤ s.index.toNat + 2
    · have hk : j - s.index.toNat < 3 := by omega
      have hplace : j = s.index.toNat + (j - s.index.toNat) := by omega
      have hnew := s.storeDecimal_holdsDigits x ⟨j, hj⟩ _ hk
        (by rw [storeDecimal_index]; exact hplace)
      exact hnew.trans (h ⟨j, hj⟩ _ hk hplace).symm
    · exact s.storeDecimal_apart x ⟨j, hj⟩ hin
  rw [storeDecimal_eq, hmemory]

/-- F265 loads the digits that memory holds. -/
theorem register_load_of_holdsDigits {b : UInt8} (h : s.HoldsDigits b)
    (hfits : s.index.toNat + 2 ≤ 0xFFF) {k : Fin 16} (hk : k ≤ 2) :
    (s.loadRegisters Edge.standard 2).register k = decimalDigit b k.val := by
  have hle : k.val ≤ 2 := hk
  obtain ⟨a, ha⟩ : ∃ a : Fin 4096, a.val = s.index.toNat + k.val := ⟨⟨_, by omega⟩, rfl⟩
  have hload := s.loadRegisters_holdsBlock 2 a k hk (by rw [loadRegisters_index, ha])
  rw [loadRegisters_memory] at hload
  exact hload.symm.trans (h a k.val (by omega) ha)

/-! ## The law -/

theorem execute_storeDigits (h : s.index.toNat + 2 ≤ 0xFFF) :
    s.execute (Instruction.storeDigits x) = .ok (s.storeDecimal Edge.standard x) := by
  obtain ⟨hshapes, hx⟩ := Instruction.decode_storeDigits x
  have hpermit : Operation.storeBcd.permit (Instruction.decode (Instruction.storeDigits x)) s =
      .ok () := (Access.permit_eq_ok_iff ..).mpr (.inr (by omega))
  rw [execute_of_shapes hshapes (by decide) hpermit, Operation.perform, hx]

/-- **Digits that are stored are loaded again.** If three bytes from I on lie in memory, FX33 and
then F265 put the digits of VX into V0, V1 and V2, whichever register VX is. The registers above V2
and the bytes outside the three stay as they are, and so does all that is neither register nor
memory. A second FX33 right after the first changes nothing. -/
theorem digits_stored_then_loaded (h : s.index.toNat + 2 ≤ 0xFFF) :
    ∃ t u, s.execute (Instruction.storeDigits x) = .ok t ∧ t.execute 0xF265 = .ok u ∧
      (u.register 0).toNat ≤ 9 ∧ (u.register 1).toNat ≤ 9 ∧ (u.register 2).toNat ≤ 9 ∧
      100 * (u.register 0).toNat + 10 * (u.register 1).toNat + (u.register 2).toNat =
        (s.register x).toNat ∧
      (∀ k : Fin 16, 3 ≤ k.val → u.register k = s.register k) ∧
      (∀ a : Fin 4096, ¬ (s.index.toNat ≤ a.val ∧ a.val ≤ s.index.toNat + 2) →
        u.memory[a] = s.memory[a]) ∧
      u = { s with memory := u.memory, registers := u.registers } ∧
      t.execute (Instruction.storeDigits x) = .ok t := by
  obtain ⟨t, ht⟩ : ∃ t, t = s.storeDecimal Edge.standard x := ⟨_, rfl⟩
  have hindex : t.index = s.index := by rw [ht, storeDecimal_index]
  have hregister : ∀ k, t.register k = s.register k := fun k => by rw [ht, storeDecimal_register]
  have hholds : t.HoldsDigits (s.register x) := ht ▸ s.storeDecimal_holdsDigits x
  have hfits : t.index.toNat + 2 ≤ 0xFFF := hindex ▸ h
  have hdigit : ∀ k : Fin 16, k ≤ 2 →
      (t.loadRegisters Edge.standard 2).register k = decimalDigit (s.register x) k.val :=
    fun k hk => register_load_of_holdsDigits hholds hfits hk
  have hagain : t.storeDecimal Edge.standard x = t :=
    storeDecimal_of_holdsDigits (hregister x ▸ hholds)
  have hword : Instruction.loadBlock 2 = 0xF265 := by decide
  refine ⟨t, t.loadRegisters Edge.standard 2, ?_, hword ▸ execute_loadBlock hfits, ?_⟩
  · rw [execute_storeDigits h, ht]
  · rw [hdigit 0 (by decide), hdigit 1 (by decide), hdigit 2 (by decide)]
    obtain ⟨hhundreds, htens, hunits, hsum⟩ := decimalDigit_sum (s.register x)
    refine ⟨hhundreds, htens, hunits, hsum, fun k hk => ?_, fun a ha => ?_, ?_, ?_⟩
    · have habove : ¬ k ≤ 2 := fun hle => absurd (show k.val ≤ 2 from hle) (by omega)
      rw [t.loadRegisters_apart 2 habove, hregister]
    · rw [loadRegisters_memory, ht]
      exact s.storeDecimal_apart x a ha
    · rw [loadRegisters_frame, ht, storeDecimal_eq]
    · rw [execute_storeDigits hfits, hagain]

/-- V1 is 254 and the last byte of memory takes its units. F265 overwrites V1 with the tens. -/
theorem digits_of_254_at_end :
    ∃ t u : State,
      { (initial ⟨0, 0⟩).setRegister 1 254 with index := 0xFFD }.execute 0xF133 = .ok t ∧
      t.execute 0xF265 = .ok u ∧ t.execute 0xF133 = .ok t ∧
      (u.register 0).toNat = 2 ∧ (u.register 1).toNat = 5 ∧ (u.register 2).toNat = 4 := by
  have hword : Instruction.storeDigits 1 = 0xF133 := by decide
  have hvalue : ((initial ⟨0, 0⟩).setRegister 1 254).register 1 = 254 := by
    rw [register_setRegister, if_pos rfl]
  obtain ⟨t, u, ht, hu, hhundreds, htens, hunits, hsum, -, -, -, hagain⟩ :=
    digits_stored_then_loaded
      (s := { (initial ⟨0, 0⟩).setRegister 1 254 with index := 0xFFD }) (x := 1) (by decide)
  rw [hword] at ht hagain
  have htotal : 100 * (u.register 0).toNat + 10 * (u.register 1).toNat + (u.register 2).toNat =
      254 := hsum.trans (congrArg UInt8.toNat hvalue)
  exact ⟨t, u, ht, hu, hagain, by omega, by omega, by omega⟩

end State

end Chip8
