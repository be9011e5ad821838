/-
Chip8.Proofs.Arithmetic — what the operations 8XYN and 7XNN compute.

`Alu.Gives` says on natural numbers what result and what flag each of the
nine functions has for two bytes; `gives_bytes` that the functions on
signed words of 32 bits give just these. For the functions with a flag
this is a case of what they make of all words (`apply_bytes_exact`), and
the sum of two bytes is a word, so the carry is right.

`State.WritesBack` says where the result and the flag go. VF is written
last, so with X = F the flag is what stays; with no flag VF is a register
like any other. Both operands are read before, so `execute_arithmetic`
has no exception for X = Y, X = F or Y = F.
-/
import Chip8.Proofs.ControlFlow
import Chip8.Proofs.Shapes
import Chip8.Proofs.SignedWords

namespace Chip8

/-- The byte of an integer is its remainder. -/
theorem toNat_ofInt (z : Int) : ((UInt8.ofInt z).toNat : Int) = z % 256 := by
  have hlow : 0 ≤ z % 256 := Int.emod_nonneg z (by decide)
  have hhigh : z % 256 < 256 := Int.emod_lt_of_pos z (by decide)
  have hcast : (UInt8.ofInt z).toNat = (z % 256).toNat := by
    show (UInt8.ofNat (z % 256).toNat).toNat = _
    exact UInt8.toNat_ofNat_of_lt' (by show _ < 256; omega)
  omega

/-! ## Bytes as signed words -/

section Bytes

variable (a b : UInt8)

theorem toInt_byte : (Int32.ofNat a.toNat).toInt = a.toNat := by
  have ha := a.toNat_lt
  exact Int32.toInt_ofNat_of_lt (by omega)

/-- A word with the bits of a byte is that byte. -/
theorem toInt_of_toBitVec {a : UInt8} {x : Int32} (h : x.toBitVec = BitVec.ofNat 32 a.toNat) :
    x.toInt = a.toNat := by
  have hx : x = Int32.ofNat a.toNat := Int32.toBitVec_inj.mp h
  rw [hx, toInt_byte]

theorem toInt_byte_or : (Int32.ofNat a.toNat ||| Int32.ofNat b.toNat).toInt = (a ||| b).toNat := by
  refine toInt_of_toBitVec ?_
  rw [Int32.toBitVec_or, UInt8.toNat_or]
  exact BitVec.ofNat_or.symm

theorem toInt_byte_and :
    (Int32.ofNat a.toNat &&& Int32.ofNat b.toNat).toInt = (a &&& b).toNat := by
  refine toInt_of_toBitVec ?_
  rw [Int32.toBitVec_and, UInt8.toNat_and]
  exact BitVec.ofNat_and.symm

theorem toInt_byte_xor :
    (Int32.ofNat a.toNat ^^^ Int32.ofNat b.toNat).toInt = (a ^^^ b).toNat := by
  refine toInt_of_toBitVec ?_
  rw [Int32.toBitVec_xor, UInt8.toNat_xor]
  exact BitVec.ofNat_xor.symm

end Bytes

/-! ## The nine functions -/

namespace Alu

/-- The operation that applies a function. -/
def operation : Alu → Operation
  | .set => .copy
  | .or => .or
  | .and => .and
  | .xor => .xor
  | .add => .add
  | .subtract => .subtract
  | .shiftRight => .shiftRight
  | .subtractReverse => .subtractReverse
  | .shiftLeft => .shiftLeft

/-- The result and the flag, if there is one, that a function has for two bytes. -/
inductive Gives (a b : Nat) : Alu → Nat → Option Nat → Prop
  | set : Gives a b .set b none
  | or : Gives a b .or (a ||| b) none
  | and : Gives a b .and (a &&& b) none
  | xor : Gives a b .xor (a ^^^ b) none
  | add {r f : Nat} (sum : a + b = 256 * f + r) : Gives a b .add r (some f)
  | subtract {r f : Nat} (difference : (r : Int) = ((a : Int) - b) % 256)
      (above : f = if b < a then 1 else 0) : Gives a b .subtract r (some f)
  | shiftRight {r f : Nat} (half : a = 2 * r + f) (bit : f ≤ 1) : Gives a b .shiftRight r (some f)
  | subtractReverse {r f : Nat} (difference : (r : Int) = ((b : Int) - a) % 256)
      (above : f = if a < b then 1 else 0) : Gives a b .subtractReverse r (some f)
  | shiftLeft {r f : Nat} (double : 2 * a = 256 * f + r) : Gives a b .shiftLeft r (some f)

/-- A flag of two bytes is 0 or 1. -/
theorem Gives.flag_le_one {a b r : Nat} {f : Alu} {flag : Option Nat} (h : Gives a b f r flag)
    (ha : a < 256) (hb : b < 256) : ∀ c ∈ flag, c ≤ 1 := by
  rintro c rfl
  cases h with
  | add sum => omega
  | shiftRight half bit => exact bit
  | shiftLeft double => omega
  | subtract difference above | subtractReverse difference above =>
    rw [above]
    split
    · exact le_rfl
    · exact Nat.zero_le 1

/-- The byte that is written for the result of a function. -/
def resultByte (f : Alu) (a b : UInt8) : UInt8 :=
  UInt8.ofInt ((f.apply (Int32.ofNat a.toNat) (Int32.ofNat b.toNat)).1 &&& 0xFF).toInt

/-- The byte that is written for the flag of a function. -/
def flagByte (f : Alu) (a b : UInt8) : UInt8 :=
  UInt8.ofInt (f.apply (Int32.ofNat a.toNat) (Int32.ofNat b.toNat)).2.toInt

/-- The flag byte of a function that has a flag. -/
def flag? (f : Alu) (a b : UInt8) : Option UInt8 :=
  if f.setsFlag then some (f.flagByte a b) else none

theorem toNat_resultByte (f : Alu) (a b : UInt8) :
    ((f.resultByte a b).toNat : Int) =
      (f.apply (Int32.ofNat a.toNat) (Int32.ofNat b.toNat)).1.toInt % 256 := by
  rw [resultByte, toNat_ofInt, toInt_and_byte, Int.emod_emod]

/-- A result that is a byte already is written as it is. -/
theorem toNat_resultByte_of_byte (f : Alu) (a b : UInt8) {c : UInt8}
    (h : (f.apply (Int32.ofNat a.toNat) (Int32.ofNat b.toNat)).1.toInt = c.toNat) :
    (f.resultByte a b).toNat = c.toNat := by
  have hc := c.toNat_lt
  have hresult := f.toNat_resultByte a b
  omega

theorem toNat_flagByte (f : Alu) (a b : UInt8) :
    ((f.flagByte a b).toNat : Int) =
      (f.apply (Int32.ofNat a.toNat) (Int32.ofNat b.toNat)).2.toInt % 256 :=
  toNat_ofInt _

/-- On bytes the functions with a flag are exact as they are on all words. -/
theorem apply_bytes_exact {f : Alu} (hf : f.setsFlag = true) (a b : UInt8) :
    f.Exact a.toNat b.toNat (f.apply (Int32.ofNat a.toNat) (Int32.ofNat b.toNat)).1.toInt
      (f.apply (Int32.ofNat a.toNat) (Int32.ofNat b.toNat)).2.toInt := by
  have hexact := apply_exact hf (Int32.ofNat a.toNat) (Int32.ofNat b.toNat)
  rwa [toInt_byte, toInt_byte] at hexact

/-- The bytes that are written for a function are those that it is to give. -/
theorem gives_bytes (f : Alu) (a b : UInt8) :
    f.Gives a.toNat b.toNat (f.resultByte a b).toNat ((f.flag? a b).map UInt8.toNat) := by
  have hresult := f.toNat_resultByte a b
  have hflag := f.toNat_flagByte a b
  have ha := a.toNat_lt
  have hb := b.toNat_lt
  cases f with
  | set =>
    rw [toNat_resultByte_of_byte .set a b (toInt_byte b)]
    exact .set
  | or =>
    rw [toNat_resultByte_of_byte .or a b (toInt_byte_or a b), UInt8.toNat_or]
    exact .or
  | and =>
    rw [toNat_resultByte_of_byte .and a b (toInt_byte_and a b), UInt8.toNat_and]
    exact .and
  | xor =>
    rw [toNat_resultByte_of_byte .xor a b (toInt_byte_xor a b), UInt8.toNat_xor]
    exact .xor
  | add =>
    cases apply_bytes_exact (f := .add) rfl a b with
    | add sum carry =>
      have hcarry := carry ⟨by omega, by omega⟩
      exact .add (by omega)
  | subtract =>
    cases apply_bytes_exact (f := .subtract) rfl a b with
    | subtract difference above =>
      refine .subtract (by omega) ?_
      split <;> omega
  | shiftRight =>
    cases apply_bytes_exact (f := .shiftRight) rfl a b with
    | shiftRight half bit => exact .shiftRight (by omega) (by omega)
  | subtractReverse =>
    cases apply_bytes_exact (f := .subtractReverse) rfl a b with
    | subtractReverse difference above =>
      refine .subtractReverse (by omega) ?_
      split <;> omega
  | shiftLeft =>
    cases apply_bytes_exact (f := .shiftLeft) rfl a b with
    | shiftLeft double bit =>
      rw [if_congr (testBit_seven_iff _) rfl rfl] at bit
      exact .shiftLeft (by omega)

end Alu

/-! ## Writing back -/

namespace State

/-- A state after a result has been put into VX and then the flag, if there is one, into VF. -/
structure WritesBack (s t : State) (x : Fin 16) (result : Nat) (flag : Option Nat) : Prop where
  /-- VX holds the result, unless it is VF and there is a flag. -/
  vx : flag = none ∨ x.val ≠ 15 → (t.register x).toNat = result
  /-- VF holds the flag. -/
  vf : ∀ f ∈ flag, ∀ k : Fin 16, k.val = 15 → (t.register k).toNat = f
  /-- All other registers keep their value, VF as well if there is no flag. -/
  others : ∀ k, k ≠ x → flag = none ∨ k.val ≠ 15 → t.register k = s.register k
  /-- Nothing but registers changes. -/
  frame : t = { s with registers := t.registers }

theorem writesBack_setRegister (s : State) (x : Fin 16) (r : UInt8) :
    s.WritesBack (s.setRegister x r) x r.toNat none where
  vx _ := by rw [register_setRegister, if_pos rfl]
  vf _ h := by cases h
  others k hk _ := by rw [register_setRegister, if_neg hk.symm]
  frame := rfl

theorem writesBack_setRegister_flag (s : State) (x : Fin 16) (r f : UInt8) :
    s.WritesBack ((s.setRegister x r).setRegister 15 f) x r.toNat (some f.toNat) where
  vx h := by
    have hne : x.val ≠ 15 := h.resolve_left (Option.some_ne_none _)
    have hx : 15 ≠ x := fun heq => hne (congrArg Fin.val heq).symm
    rw [register_setRegister, if_neg hx, register_setRegister, if_pos rfl]
  vf b h k hk := by
    obtain rfl : f.toNat = b := Option.some.inj h
    have hlast : 15 = k := Fin.ext hk.symm
    rw [register_setRegister, if_pos hlast]
  others k hk h := by
    have hne : k.val ≠ 15 := h.resolve_left (Option.some_ne_none _)
    have hlast : 15 ≠ k := fun heq => hne (congrArg Fin.val heq).symm
    rw [register_setRegister, if_neg hlast, register_setRegister, if_neg hk.symm]
  frame := rfl

/-- A function of VX and VY writes its result and its flag back. -/
theorem writesBack_applyAlu (s : State) (f : Alu) (x y : Fin 16) :
    s.WritesBack (s.applyAlu f x y) x (f.resultByte (s.register x) (s.register y)).toNat
      ((f.flag? (s.register x) (s.register y)).map UInt8.toNat) := by
  unfold applyAlu Alu.flag?
  cases f.setsFlag with
  | false => exact s.writesBack_setRegister x _
  | true => exact s.writesBack_setRegister_flag x _ _

theorem execute_alu {s : State} {word : Int} {f : Alu}
    (h : f.operation.Shapes (Instruction.decode word)) :
    s.execute word =
      .ok (s.applyAlu f (Instruction.decode word).x (Instruction.decode word).y) := by
  cases f <;> exact execute_of_shapes h (by decide) rfl

/-- **Arithmetic on the register file.** For every state and all X and Y, equal or not and also F:
8XYN is carried out, and its result and its flag are those of its function for the values that VX
and VY have before; 7XNN adds NN to VX and has no flag. -/
theorem execute_arithmetic (s : State) (word : Int) :
    (∀ f : Alu, f.operation.Shapes (Instruction.decode word) →
      ∃ t result flag, s.execute word = .ok t ∧
        f.Gives (s.register (Instruction.decode word).x).toNat
          (s.register (Instruction.decode word).y).toNat result flag ∧
        result ≤ 255 ∧ (∀ b ∈ flag, b ≤ 1) ∧
        s.WritesBack t (Instruction.decode word).x result flag) ∧
    (Operation.addImmediate.Shapes (Instruction.decode word) →
      ∃ t, s.execute word = .ok t ∧
        s.WritesBack t (Instruction.decode word).x
          (((s.register (Instruction.decode word).x).toNat +
            (Instruction.decode word).nn.toNat) % 256) none) := by
  generalize hi : Instruction.decode word = i
  constructor
  · intro f hshapes
    rw [← hi] at hshapes
    have hgives := f.gives_bytes (s.register i.x) (s.register i.y)
    have hbyte := (f.resultByte (s.register i.x) (s.register i.y)).toNat_lt
    refine ⟨s.applyAlu f i.x i.y, _, _, ?_, hgives, by omega, ?_, s.writesBack_applyAlu f i.x i.y⟩
    · rw [execute_alu hshapes, hi]
    · exact hgives.flag_le_one (s.register i.x).toNat_lt (s.register i.y).toNat_lt
  · intro hshapes
    rw [← hi] at hshapes
    refine ⟨s.setRegister i.x (s.register i.x + i.nn), ?_, ?_⟩
    · rw [execute_of_shapes hshapes (by decide) rfl, hi]
      rfl
    · rw [← UInt8.toNat_add]
      exact s.writesBack_setRegister i.x _

/-- A state with 200 in VF and zero in every other register. -/
def fullFlag : State := (initial ⟨0, 0⟩).setRegister (Fin.last 15) 200

/-- With X = Y = F the carry of 8FF4 replaces the sum, and no other register changes; 7F64 adds 100
to VF and wraps. -/
theorem carry_replaces_sum :
    (∃ t, fullFlag.execute 0x8FF4 = .ok t ∧ (t.register 15).toNat = 1 ∧
      ∀ k, k ≠ 15 → t.register k = fullFlag.register k) ∧
    ∃ t, fullFlag.execute 0x7F64 = .ok t ∧ (t.register 15).toNat = 44 := by
  obtain ⟨t, result, flag, hrun, hgives, hbyte, -, hback⟩ :=
    (execute_arithmetic fullFlag 0x8FF4).1 .add (by decide)
  obtain ⟨u, hrun', hback'⟩ := (execute_arithmetic fullFlag 0x7F64).2 (by decide)
  have hregister : (fullFlag.register (Instruction.decode 0x8FF4).x).toNat = 200 ∧
      (fullFlag.register (Instruction.decode 0x8FF4).y).toNat = 200 := by decide
  rw [hregister.1, hregister.2] at hgives
  have hlast : (Instruction.decode 0x8FF4).x = 15 := by decide
  have hsum : ((fullFlag.register (Instruction.decode 0x7F64).x).toNat +
      (Instruction.decode 0x7F64).nn.toNat) % 256 = 44 := by decide
  refine ⟨⟨t, hrun, ?_, fun k hk => ?_⟩, u, hrun', (hback'.vx (.inl rfl)).trans hsum⟩
  · cases hgives with
    | @add _ f sum => exact (hback.vf f rfl 15 rfl).trans (by omega)
  · exact hback.others k (hlast ▸ hk) (.inr fun h => hk (Fin.ext h))

end State

end Chip8
