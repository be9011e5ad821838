/-
Chip8.Proofs.SignedWords — the functions with a flag on all signed words of
32 bits, not only on bytes.

`Alu.Exact` says with integers of any size what result and what flag such
a function is to have, and `evaluate_exact` that it has them for every two
words. The intermediate value may wrap: 256 divides 2 ^ 32, so the low byte
is the same before and after (`bmod_emod_of_dvd`). The flag of a
subtraction compares the operands and the flag of a shift is one of their
bits, so no wrapping reaches them. The carry alone is taken from a sum that
may have wrapped; `carry_right_iff` tells for which sums it is right.
-/
import Mathlib.Data.Int.Bitwise
import Chip8.Alu

namespace Chip8

/-! ## Integers that are words -/

/-- Whether an integer is a signed word of 32 bits. -/
def IsWord (z : Int) : Prop := -2147483648 ≤ z ∧ z ≤ 2147483647

instance (z : Int) : Decidable (IsWord z) := inferInstanceAs (Decidable (_ ∧ _))

theorem wordOfInt_of_isWord {z : Int} (h : IsWord z) : wordOfInt z = .ok (Int32.ofInt z) :=
  if_pos h

theorem toInt_ofInt_of_isWord {z : Int} (h : IsWord z) : (Int32.ofInt z).toInt = z := by
  obtain ⟨hlow, hhigh⟩ := h
  exact Int32.toInt_ofInt_of_le hlow (by omega)

/-! ## Bits of words -/

/-- A balanced remainder has the old remainder for a divisor of its modulus. -/
theorem bmod_emod_of_dvd {k m : Nat} (h : k ∣ m) (z : Int) : z.bmod m % k = z % k := by
  have hdvd : (k : Int) ∣ m := Int.natCast_dvd_natCast.mpr h
  rw [← Int.emod_emod_of_dvd _ hdvd, Int.bmod_emod, Int.emod_emod_of_dvd _ hdvd]

/-- A mask of the low bits takes the remainder of a signed word, also of a negative one. -/
theorem toInt_and_low {m : Int32} {k : Nat} (hmask : ∀ z : Nat, z &&& m.toBitVec.toNat = z % k)
    (hdvd : k ∣ 4294967296) (hpos : 0 < k) (hlt : k < 2147483648) (x : Int32) :
    (x &&& m).toInt = x.toInt % k := by
  have hx : x.toInt = (x.toBitVec.toNat : Int).bmod 4294967296 := x.toBitVec.toInt_eq_toNat_bmod
  have hand : (x &&& m).toInt = ((x.toBitVec.toNat % k : Nat) : Int).bmod 4294967296 := by
    rw [← hmask]
    exact BitVec.toInt_and x.toBitVec m.toBitVec
  have hsmall : x.toBitVec.toNat % k < k := Nat.mod_lt _ hpos
  rw [hand, Int.bmod_eq_of_le_mul_two (by omega) (by omega), hx, bmod_emod_of_dvd hdvd,
    Int.natCast_emod]

theorem toInt_and_byte (x : Int32) : (x &&& 0xFF).toInt = x.toInt % 256 :=
  toInt_and_low (m := 0xFF) (k := 256) (fun z => Nat.and_two_pow_sub_one_eq_mod z 8) (by decide)
    (by decide) (by decide) x

theorem toInt_and_one (x : Int32) : (x &&& 1).toInt = x.toInt % 2 :=
  toInt_and_low (m := 1) (k := 2) (fun z => Nat.and_two_pow_sub_one_eq_mod z 1) (by decide)
    (by decide) (by decide) x

/-- A shift to the right divides and rounds down. -/
theorem toInt_shiftRight {c : Int32} {n : Nat} (hc : (c.toBitVec.smod 32).toNat = n) (x : Int32) :
    (x >>> c).toInt = x.toInt / (1 <<< n : Nat) := by
  have hshift : (x >>> c).toBitVec = x.toBitVec.sshiftRight n := by
    rw [Int32.toBitVec_shiftRight, ← hc]
    rfl
  show (x >>> c).toBitVec.toInt = _
  rw [hshift, BitVec.toInt_sshiftRight, Int.shiftRight_eq_div_pow, Nat.one_shiftLeft]
  rfl

theorem toInt_shiftRight_one (x : Int32) : (x >>> 1).toInt = x.toInt / 2 :=
  toInt_shiftRight (n := 1) (by decide) x

theorem shiftLeft_one (x : Int32) : x <<< 1 = x + x := by
  have hshift : (x <<< 1).toBitVec = x.toBitVec <<< 1 := Int32.toBitVec_shiftLeft x 1
  rw [← Int32.toBitVec_inj, hshift, BitVec.shiftLeft_eq_mul_twoPow, BitVec.mul_comm]
  exact BitVec.two_mul

/-- The eighth bit, moved to the lowest place. -/
theorem toInt_and_shiftRight_seven (x : Int32) :
    ((x &&& 0x80) >>> 7).toInt = x.toInt / 128 % 2 := by
  have hmask : (0x80 : Int32) >>> 7 = 1 := by decide
  have hshift : (x >>> 7).toInt = x.toInt / 128 := toInt_shiftRight (n := 7) (by decide) x
  rw [Int32.shiftRight_and, hmask, toInt_and_one, hshift]

/-- The eighth bit of an integer in two's complement, also below zero. -/
theorem testBit_seven_iff (z : Int) : z.testBit 7 = true ↔ z / 128 % 2 = 1 := by
  cases z with
  | ofNat n =>
    rw [Int.testBit, Nat.testBit_eq_decide_div_mod_eq, decide_eq_true_iff, Int.ofNat_eq_natCast]
    omega
  | negSucc n =>
    -- the integer is -n - 1, and its bits are those of n inverted
    rw [Int.testBit, Nat.testBit_eq_decide_div_mod_eq, ← decide_not, decide_eq_true_iff]
    omega

/-! ## Sums and differences that may wrap -/

section Wrapping

variable (a b : Int32)

theorem toInt_add_and_byte : ((a + b) &&& 0xFF).toInt = (a.toInt + b.toInt) % 256 := by
  rw [toInt_and_byte, Int32.toInt_add]
  exact bmod_emod_of_dvd (by decide) _

theorem toInt_sub_and_byte : ((a - b) &&& 0xFF).toInt = (a.toInt - b.toInt) % 256 := by
  rw [toInt_and_byte, Int32.toInt_sub]
  exact bmod_emod_of_dvd (by decide) _

end Wrapping

namespace Alu

/-! ## Results and flags -/

/-- The result and the flag that a function with a flag is to have for two integers. The carry is
settled only where the sum is a word. -/
inductive Exact (x y : Int) : Alu → Int → Int → Prop
  | add {r c : Int} (sum : r = (x + y) % 256)
      (carry : IsWord (x + y) → c = if 255 < x + y then 1 else 0) : Exact x y .add r c
  | subtract {r c : Int} (difference : r = (x - y) % 256)
      (above : c = if y < x then 1 else 0) : Exact x y .subtract r c
  | shiftRight {r c : Int} (half : x = 2 * r + c) (bit : c = 0 ∨ c = 1) : Exact x y .shiftRight r c
  | subtractReverse {r c : Int} (difference : r = (y - x) % 256)
      (above : c = if x < y then 1 else 0) : Exact x y .subtractReverse r c
  | shiftLeft {r c : Int} (double : r = 2 * x % 256)
      (bit : c = if x.testBit 7 then 1 else 0) : Exact x y .shiftLeft r c

theorem toInt_flag (p : Prop) [Decidable p] : (flag (decide p)).toInt = if p then 1 else 0 := by
  by_cases h : p
  · simp [flag, h]
  · simp [flag, h]

/-- The carry looks at the sum after it has wrapped. -/
theorem toInt_carry (a b : Int32) :
    (add.apply a b).2.toInt = if 255 < (a.toInt + b.toInt).bmod 4294967296 then 1 else 0 := by
  have hmax : (0xFF : Int32).toInt = 255 := rfl
  have hcarry : a + b > 0xFF ↔ 255 < (a.toInt + b.toInt).bmod 4294967296 := by
    rw [gt_iff_lt, Int32.lt_iff_toInt_lt, Int32.toInt_add, hmax]
  rw [apply, toInt_flag, if_congr hcarry rfl rfl]

theorem toInt_comparison (a b : Int32) :
    (flag (a > b)).toInt = if b.toInt < a.toInt then 1 else 0 := by
  rw [toInt_flag, if_congr Int32.lt_iff_toInt_lt rfl rfl]

/-- What a function with a flag makes of two words is exact. -/
theorem apply_exact {f : Alu} (hf : f.setsFlag = true) (a b : Int32) :
    f.Exact a.toInt b.toInt (f.apply a b).1.toInt (f.apply a b).2.toInt := by
  cases f with
  | set | or | and | xor => cases hf
  | add =>
    refine .add (toInt_add_and_byte a b) fun hsum => ?_
    -- a sum that is a word has not wrapped
    obtain ⟨hlow, hhigh⟩ := hsum
    rw [toInt_carry, Int.bmod_eq_of_le_mul_two (by omega) (by omega)]
  | subtract => exact .subtract (toInt_sub_and_byte a b) (toInt_comparison a b)
  | subtractReverse => exact .subtractReverse (toInt_sub_and_byte b a) (toInt_comparison b a)
  | shiftRight =>
    rw [apply, toInt_shiftRight_one, toInt_and_one]
    exact .shiftRight (by omega) (by omega)
  | shiftLeft =>
    refine .shiftLeft ?_ ?_
    · rw [apply, shiftLeft_one, toInt_add_and_byte, Int.two_mul]
    · rw [apply, toInt_and_shiftRight_seven, if_congr (testBit_seven_iff _) rfl rfl]
      omega

theorem evaluate_of_isWord (f : Alu) {x y : Int} (hx : IsWord x) (hy : IsWord y) :
    f.evaluate x y = .ok (f.apply (Int32.ofInt x) (Int32.ofInt y)) := by
  rw [evaluate, wordOfInt_of_isWord hx, wordOfInt_of_isWord hy]
  cases f <;> rfl

/-- **Exactness on words.** For every two signed words of 32 bits each of the five functions with a
flag has a result and a flag. Sum, difference and double are the true ones reduced to a byte,
whether or not they wrap on the way; a subtraction compares the operands as integers; the flag of
the left shift is the eighth bit, and twice the result of the right shift and its flag make up the
operand again, also below zero. The carry tells whether the true sum exceeds a byte whenever that
sum is a word. -/
theorem evaluate_exact {f : Alu} {x y : Int} (hf : f.setsFlag = true) (hx : IsWord x)
    (hy : IsWord y) :
    ∃ r c, f.evaluate x y = .ok (r, c) ∧ f.Exact x y r.toInt c.toInt := by
  refine ⟨_, _, f.evaluate_of_isWord hx hy, ?_⟩
  have hexact := apply_exact hf (Int32.ofInt x) (Int32.ofInt y)
  rwa [toInt_ofInt_of_isWord hx, toInt_ofInt_of_isWord hy] at hexact

/-- The smallest sum that carries, of two words that are no bytes. -/
theorem sum_of_256_exact :
    add.setsFlag = true ∧ IsWord 2147483647 ∧ IsWord (-2147483391) ∧
      ∃ r c, add.evaluate 2147483647 (-2147483391) = .ok (r, c) ∧
        add.Exact 2147483647 (-2147483391) r.toInt c.toInt :=
  ⟨rfl, by decide, by decide, evaluate_exact rfl (by decide) (by decide)⟩

/-- The carry is right just for the sums that are words and for the few so far below zero that they
wrap round to a byte. -/
theorem carry_right_iff (a b : Int32) :
    (add.apply a b).2.toInt = (if 255 < a.toInt + b.toInt then 1 else 0) ↔
      IsWord (a.toInt + b.toInt) ∨ a.toInt + b.toInt ≤ 255 - 4294967296 := by
  have halow := a.le_toInt
  have hahigh := a.toInt_lt
  have hblow := b.le_toInt
  have hbhigh := b.toInt_lt
  rw [toInt_carry, Int.bmod_def, IsWord]
  omega

/-- The sum wraps to the least word, so the result is right and the carry is lost. -/
example : add.evaluate 2147483647 1 = .ok (0, 0) := rfl

end Alu

end Chip8
