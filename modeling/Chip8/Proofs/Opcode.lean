/-
Chip8.Proofs.Opcode — which words name which operation.

The opcode table is looked up with words of any size, but only their
sixteen low bits are ever compared:

* `firstMatch_decode` — an integer and the instruction decoded from it
  name the same operation.
* `ofWord_eq_ok_iff` and `ofWord_eq_error_iff` — a word without a fitting
  pattern is the only word without an operation.
* `firstMatch_family` — only the patterns with a word's highest digit
  can fit it, so the operation of a word is looked up among these alone.

The last one replaces every argument about the order of all thirty-five
patterns by an argument about at most nine.
-/
import Mathlib.Data.List.Find
import Chip8.Execute

namespace Chip8

/-! ## Words and their sixteen low bits -/

/-- Decoding keeps the remainder modulo 65536. -/
theorem toNat_decode (word : Int) :
    ((Instruction.decode word).raw.toNat : Int) = word % 65536 := by
  have h : (Instruction.decode word).raw.toNat = (word % 65536).toNat % 65536 := rfl
  omega

/-- A decoded instruction decodes to itself. -/
theorem decode_toNat (i : Instruction) : Instruction.decode (i.raw.toNat : Int) = i := by
  obtain ⟨raw⟩ := i
  have h := toNat_decode (raw.toNat : Int)
  have hlt := raw.toNat_lt
  have heq : (Instruction.decode (raw.toNat : Int)).raw = raw := UInt16.toNat_inj.mp (by omega)
  exact congrArg Instruction.mk heq

/-- A set bit of a mask of sixteen bits is one of its sixteen low bits. -/
theorem lt_of_testBit_mask {mask j : Nat} (hm : mask < 65536) (hj : mask.testBit j = true) :
    j < 16 := by
  by_contra hge
  have hpow : 2 ^ 16 ≤ 2 ^ j := Nat.pow_le_pow_right (by omega) (by omega)
  rw [Nat.testBit_lt_two_pow (by omega)] at hj
  exact absurd hj (by decide)

/-- The bits of an integer under a mask of sixteen bits are bits of its remainder. -/
theorem maskBits_decode (word : Int) {mask : Nat} (hm : mask < 65536) :
    maskBits word mask = (Instruction.decode word).raw.toNat &&& mask := by
  have hraw := toNat_decode word
  generalize (Instruction.decode word).raw.toNat = r at hraw
  apply Nat.eq_of_testBit_eq
  intro j
  rw [Nat.testBit_and]
  cases hj : mask.testBit j with
  | false => cases word <;> simp [maskBits, hj]
  | true =>
    have hlow := lt_of_testBit_mask hm hj
    cases word with
    | ofNat n =>
      have hr : r = n % 2 ^ 16 := by rw [Int.ofNat_eq_natCast] at hraw; omega
      rw [hr, Nat.testBit_mod_two_pow]
      simp [maskBits, hj, hlow]
    | negSucc n =>
      -- Two's complement: the remainder is the complement of the sixteen low bits of `n`.
      have hr : r = 2 ^ 16 - (n % 2 ^ 16 + 1) := by omega
      rw [hr, Nat.testBit_two_pow_sub_succ (Nat.mod_lt n (Nat.two_pow_pos 16)),
        Nat.testBit_mod_two_pow]
      simp [maskBits, hj, hlow]

/-- Every mask of the opcode table has sixteen bits. -/
theorem mask_lt_of_mem {p : Pattern} (hp : p ∈ opcodeTable) : p.mask < 65536 := by
  have h : ∀ q ∈ opcodeTable, q.mask < 65536 := by decide
  exact h p hp

/-- A pattern of the table fits an integer exactly if it fits the instruction decoded from it. -/
theorem fits_decode {p : Pattern} (hp : p ∈ opcodeTable) (word : Int) :
    p.fits (Instruction.decode word).raw.toNat = p.fits word := by
  have hm := mask_lt_of_mem hp
  rw [Pattern.fits, Pattern.fits, maskBits_decode word hm, maskBits_decode _ hm, decode_toNat]

/-- An integer and the instruction decoded from it name the same operation. -/
theorem firstMatch_decode (word : Int) :
    firstMatch opcodeTable (Instruction.decode word).raw.toNat = firstMatch opcodeTable word := by
  unfold firstMatch
  rw [List.find?_congr fun p hp => fits_decode hp word]

/-! ## Words with and without an operation -/

/-- A word has no operation exactly if no pattern of the table fits it. -/
theorem firstMatch_eq_none_iff (word : Int) :
    firstMatch opcodeTable word = none ↔ ∀ p ∈ opcodeTable, p.fits word = false := by
  simp [firstMatch]

theorem ofWord_eq_ok_iff (word : Int) (o : Operation) :
    Operation.ofWord word = .ok o ↔ firstMatch opcodeTable word = some o := by
  unfold Operation.ofWord
  cases firstMatch opcodeTable word with
  | none => simp
  | some o' => simp

theorem ofWord_eq_error_iff (word : Int) (f : Fault) :
    Operation.ofWord word = .error f ↔
      firstMatch opcodeTable word = none ∧ f = .unknownInstruction word := by
  unfold Operation.ofWord
  cases firstMatch opcodeTable word with
  | none => simp [eq_comm]
  | some o' => simp

/-! ## Looking an operation up by the highest digit -/

/-- The patterns of the table whose highest digit is `d`. -/
def family (d : Nat) : List Pattern := opcodeTable.filter fun p => p.value / 4096 == d

/-- Every mask of the opcode table covers the highest digit: only the digits below are masked. -/
theorem fits_iff {p : Pattern} (hp : p ∈ opcodeTable) (i : Instruction) :
    p.fits i.raw.toNat = true ↔
      i.opcode.val = p.value / 4096 ∧ i.raw.toNat % 4096 &&& p.mask % 4096 = p.value % 4096 := by
  have hlt := i.raw.toNat_lt
  have hmask : p.mask / 4096 = 2 ^ 4 - 1 := by
    have h : ∀ q ∈ opcodeTable, q.mask / 4096 = 2 ^ 4 - 1 := by decide
    exact h p hp
  have hhigh : (i.raw.toNat &&& p.mask) / 4096 = i.raw.toNat / 4096 &&& p.mask / 4096 :=
    Nat.and_div_two_pow (n := 12)
  have hlow : (i.raw.toNat &&& p.mask) % 4096 = i.raw.toNat % 4096 &&& p.mask % 4096 :=
    Nat.and_mod_two_pow (n := 12)
  rw [hmask, Nat.and_two_pow_sub_one_eq_mod] at hhigh
  simp only [Pattern.fits, maskBits, beq_iff_eq, Instruction.opcode]
  constructor
  · intro h
    rw [h] at hhigh hlow
    exact ⟨by omega, hlow.symm⟩
  · rintro ⟨hd, hr⟩
    have hsplit := Nat.div_add_mod (i.raw.toNat &&& p.mask) 4096
    omega

/-- A word is looked up among the patterns with its own highest digit. -/
theorem firstMatch_family (i : Instruction) :
    firstMatch opcodeTable i.raw.toNat = firstMatch (family i.opcode) i.raw.toNat := by
  unfold firstMatch family
  rw [List.find?_filter]
  congr 1
  apply List.find?_congr
  intro p hp
  cases hf : p.fits i.raw.toNat with
  | false => simp
  | true => simp [((fits_iff hp i).mp hf).1]

/-- The words with the highest digit D draw. -/
theorem firstMatch_draw {i : Instruction} (h : i.opcode = 13) :
    firstMatch opcodeTable i.raw.toNat = some .draw := by
  have hfit : Pattern.fits ⟨0xF000, 0xD000, .draw⟩ i.raw.toNat = true :=
    (fits_iff (by decide) i).mpr ⟨by rw [h]; rfl, by simp⟩
  rw [firstMatch_family, h, show family (13 : Fin 16) = [⟨0xF000, 0xD000, .draw⟩] from by decide]
  simp [firstMatch, hfit]

end Chip8
