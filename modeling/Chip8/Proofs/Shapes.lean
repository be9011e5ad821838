/-
Chip8.Proofs.Shapes — the operation of a word, read off its digits.

The code of an operation, such as 8XY4, shows what its words look like: a
digit stands for itself and a letter for any digit. `Operation.Shapes`
says that a word looks like that, and `firstMatch_eq_some_iff_shapes` that
this decides which operation the opcode table names.

The table holds masks, the codes are texts; that they agree is checked
digit by digit (`shape_of_mem`). No word has two shapes but 00E0 and 00EE,
which 0NNN covers (`eq_or_covers_of_fits`), so the order of the table is
needed for these two alone.
-/
import Chip8.Proofs.Execution

namespace Chip8

/-! ## Digits -/

namespace Instruction

/-- A digit of a word, counted from the highest. -/
def digit (i : Instruction) (k : Fin 4) : Fin 16 :=
  match k.val with
  | 0 => i.opcode
  | 1 => i.x
  | 2 => i.y
  | _ => i.n

/-- What a one at the place of a digit counts. -/
def weight (k : Fin 4) : Nat :=
  match k.val with
  | 0 => 4096
  | 1 => 256
  | 2 => 16
  | _ => 1

theorem digit_val (i : Instruction) (k : Fin 4) :
    (i.digit k).val = i.raw.toNat / weight k % 16 := by
  match k with
  | 0 => rfl
  | 1 => rfl
  | 2 => rfl
  | 3 =>
    show i.raw.toNat % 16 = i.raw.toNat / 1 % 16
    rw [Nat.div_one]

/-- The word with these four digits, the highest first. -/
def ofDigits (a b c d : Fin 16) : Instruction :=
  ⟨UInt16.ofNat (4096 * a.val + 256 * b.val + 16 * c.val + d.val)⟩

theorem toNat_ofDigits (a b c d : Fin 16) :
    (ofDigits a b c d).raw.toNat = 4096 * a.val + 256 * b.val + 16 * c.val + d.val :=
  UInt16.toNat_ofNat_of_lt' (by show _ < 65536; omega)

/-- The low byte has the two low digits. -/
theorem toNat_nn (i : Instruction) : i.nn.toNat = 16 * i.y.val + i.n.val := by
  have hbyte : i.nn.toNat = i.raw.toNat % 256 := UInt16.toNat_toUInt8 i.raw
  simp only [hbyte, y, n]
  omega

/-- A word is made of its digits. -/
theorem ofDigits_digits (i : Instruction) : ofDigits i.opcode i.x i.y i.n = i := by
  have hlt := i.raw.toNat_lt
  have hnat : (ofDigits i.opcode i.x i.y i.n).raw.toNat = i.raw.toNat := by
    rw [toNat_ofDigits]
    simp only [opcode, x, y, n]
    omega
  exact congrArg Instruction.mk (UInt16.toNat_inj.mp hnat)

end Instruction

/-! ## Shapes -/

namespace Operation

/-- The digit that the code of an operation fixes at a place, none if it has a letter there. -/
def shape (o : Operation) (k : Fin 4) : Option (Fin 16) :=
  o.code.toList[k.val]?.bind fun c =>
    (List.finRange 16).find? fun d => Text.digitChar d.val == c

/-- A word has the digits that the code of an operation fixes; a letter stands for any digit. -/
def Shapes (o : Operation) (i : Instruction) : Prop :=
  ∀ k, ∀ d ∈ o.shape k, i.digit k = d

instance (o : Operation) (i : Instruction) : Decidable (o.Shapes i) :=
  inferInstanceAs (Decidable (∀ k, ∀ d ∈ o.shape k, i.digit k = d))

/-- The code of 0NNN covers those of 00E0 and 00EE. -/
def Covers (o o' : Operation) : Prop := o = .systemCall ∧ (o' = .clearScreen ∨ o' = .ret)

instance (o o' : Operation) : Decidable (o.Covers o') :=
  inferInstanceAs (Decidable (_ ∧ (_ ∨ _)))

/-- Every operation has a pattern. -/
theorem exists_pattern (o : Operation) : ∃ p ∈ opcodeTable, p.operation = o := by
  cases o <;> decide

end Operation

/-! ## Patterns and shapes -/

/-- The digits of the bits that two numbers share. -/
theorem and_digit (a b : Nat) (k : Fin 4) :
    (a &&& b) / Instruction.weight k % 16 =
      a / Instruction.weight k % 16 &&& b / Instruction.weight k % 16 := by
  have hweight : Instruction.weight k = 2 ^ (4 * (3 - k.val)) := by
    revert k
    decide
  have hsixteen : 16 = 2 ^ 4 := rfl
  rw [hweight, hsixteen, Nat.and_div_two_pow, Nat.and_mod_two_pow]

/-- The bits of a word under a mask are its digits under the digits of the mask. -/
theorem fits_iff_digits {p : Pattern} (hmask : p.mask < 65536) (hvalue : p.value < 65536)
    (i : Instruction) :
    p.fits i.raw.toNat = true ↔
      ∀ k : Fin 4, (i.digit k).val &&& p.mask / Instruction.weight k % 16 =
        p.value / Instruction.weight k % 16 := by
  have hle : i.raw.toNat &&& p.mask ≤ p.mask := Nat.and_le_right
  simp only [Instruction.digit_val, ← and_digit, Pattern.fits, maskBits, beq_iff_eq]
  constructor
  · intro h k
    rw [h]
  · intro h
    have h0 : (i.raw.toNat &&& p.mask) / 4096 % 16 = p.value / 4096 % 16 := h 0
    have h1 : (i.raw.toNat &&& p.mask) / 256 % 16 = p.value / 256 % 16 := h 1
    have h2 : (i.raw.toNat &&& p.mask) / 16 % 16 = p.value / 16 % 16 := h 2
    have h3 : (i.raw.toNat &&& p.mask) / 1 % 16 = p.value / 1 % 16 := h 3
    omega

/-- Each digit of a mask is looked at as a whole or not at all. -/
theorem mask_digit_of_mem {p : Pattern} (hp : p ∈ opcodeTable) (k : Fin 4) :
    p.mask / Instruction.weight k % 16 = 15 ∨
      (p.mask / Instruction.weight k % 16 = 0 ∧ p.value / Instruction.weight k % 16 = 0) := by
  have h : ∀ q ∈ opcodeTable, ∀ j : Fin 4, q.mask / Instruction.weight j % 16 = 15 ∨
      (q.mask / Instruction.weight j % 16 = 0 ∧ q.value / Instruction.weight j % 16 = 0) := by
    decide
  exact h p hp k

/-- The code of an operation fixes the digits that its pattern looks at. -/
theorem shape_of_mem {p : Pattern} (hp : p ∈ opcodeTable) (k : Fin 4) :
    (p.operation.shape k).map Fin.val =
      if p.mask / Instruction.weight k % 16 = 15 then
        some (p.value / Instruction.weight k % 16)
      else none := by
  have h : ∀ q ∈ opcodeTable, ∀ j : Fin 4, (q.operation.shape j).map Fin.val =
      if q.mask / Instruction.weight j % 16 = 15 then some (q.value / Instruction.weight j % 16)
      else none := by
    decide +kernel
  exact h p hp k

/-- A pattern of the table fits the words that have the shape of its operation. -/
theorem fits_iff_shapes {p : Pattern} (hp : p ∈ opcodeTable) (i : Instruction) :
    p.fits i.raw.toNat = true ↔ p.operation.Shapes i := by
  have hsize : ∀ q ∈ opcodeTable, q.mask < 65536 ∧ q.value < 65536 := by decide
  rw [fits_iff_digits (hsize p hp).1 (hsize p hp).2]
  refine forall_congr' fun k => ?_
  have hshape := shape_of_mem hp k
  rcases mask_digit_of_mem hp k with hmask | ⟨hmask, hvalue⟩
  · rw [if_pos hmask] at hshape
    obtain ⟨v, hv, hval⟩ := Option.map_eq_some_iff.mp hshape
    have hland : (i.digit k).val &&& 15 = (i.digit k).val % 16 :=
      Nat.and_two_pow_sub_one_eq_mod _ 4
    rw [hmask, hland, Nat.mod_eq_of_lt (i.digit k).isLt, ← hval, ← Fin.ext_iff, hv]
    simp only [Option.mem_some_iff, forall_eq']
  · have hunseen : ¬ p.mask / Instruction.weight k % 16 = 15 := by omega
    rw [if_neg hunseen, Option.map_eq_none_iff] at hshape
    rw [hmask, hvalue, hshape]
    simp

/-- Two patterns that fit one word agree where both of them look. -/
theorem agree_of_fits {p q : Pattern} {n : Nat} (hp : p.fits n = true) (hq : q.fits n = true) :
    p.value &&& q.mask = q.value &&& p.mask := by
  simp only [Pattern.fits, maskBits, beq_iff_eq] at hp hq
  rw [← hp, ← hq, Nat.and_assoc, Nat.and_comm p.mask, Nat.and_assoc]

/-- No word fits two patterns of the table, unless the code of one covers that of the other. -/
theorem eq_or_covers_of_fits {p q : Pattern} (hp : p ∈ opcodeTable) (hq : q ∈ opcodeTable)
    {n : Nat} (hpn : p.fits n = true) (hqn : q.fits n = true) :
    p.operation = q.operation ∨ p.operation.Covers q.operation ∨
      q.operation.Covers p.operation := by
  have h : ∀ p ∈ opcodeTable, ∀ q ∈ opcodeTable, p.value &&& q.mask = q.value &&& p.mask →
      p.operation = q.operation ∨ p.operation.Covers q.operation ∨
        q.operation.Covers p.operation := by
    decide +kernel
  exact h p hp q hq (agree_of_fits hpn hqn)

/-! ## Words and shapes -/

/-- The two words whose codes are covered name the operations of these codes. -/
theorem firstMatch_of_covered {o o' : Operation} (h : o.Covers o') {i : Instruction}
    (hshapes : o'.Shapes i) : firstMatch opcodeTable i.raw.toNat = some o' := by
  obtain ⟨-, rfl | rfl⟩ := h
  · have hopcode : i.opcode = 0 := hshapes 0 0 (by decide)
    have hx : i.x = 0 := hshapes 1 0 (by decide)
    have hy : i.y = 14 := hshapes 2 14 (by decide)
    have hn : i.n = 0 := hshapes 3 0 (by decide)
    rw [← i.ofDigits_digits, hopcode, hx, hy, hn]
    decide
  · have hopcode : i.opcode = 0 := hshapes 0 0 (by decide)
    have hx : i.x = 0 := hshapes 1 0 (by decide)
    have hy : i.y = 14 := hshapes 2 14 (by decide)
    have hn : i.n = 14 := hshapes 3 14 (by decide)
    rw [← i.ofDigits_digits, hopcode, hx, hy, hn]
    decide

/-- **A word names the operation whose shape it has**; where the code of one operation covers that
of another, the other one is named. -/
theorem firstMatch_eq_some_iff_shapes (i : Instruction) (o : Operation) :
    firstMatch opcodeTable i.raw.toNat = some o ↔
      o.Shapes i ∧ ∀ o', o.Covers o' → ¬ o'.Shapes i := by
  constructor
  · intro h
    obtain ⟨p, hfind, rfl⟩ := Option.map_eq_some_iff.mp h
    have hfits := List.find?_some hfind
    refine ⟨(fits_iff_shapes (List.mem_of_find?_eq_some hfind) i).mp hfits, ?_⟩
    rintro o' hcovers hshapes
    rw [firstMatch_of_covered hcovers hshapes] at h
    obtain ⟨hsystem, ho'⟩ := hcovers
    rw [← Option.some.inj h] at hsystem
    rcases ho' with rfl | rfl
    · cases hsystem
    · cases hsystem
  · rintro ⟨hshapes, hcovers⟩
    obtain ⟨p, hp, rfl⟩ := o.exists_pattern
    have hfits := (fits_iff_shapes hp i).mpr hshapes
    cases hfind : opcodeTable.find? (·.fits i.raw.toNat) with
    | none => exact absurd hfits (List.find?_eq_none.mp hfind p hp)
    | some q =>
      have hq := List.mem_of_find?_eq_some hfind
      have hqfits := List.find?_some hfind
      have hfirst : firstMatch opcodeTable i.raw.toNat = some q.operation := by
        rw [firstMatch, hfind]
        rfl
      rcases eq_or_covers_of_fits hp hq hfits hqfits with heq | hcover | hcover
      · rw [hfirst, heq]
      · exact absurd ((fits_iff_shapes hq i).mp hqfits) (hcovers _ hcover)
      · exact firstMatch_of_covered hcover hshapes

/-- Of all codes only that of 0NNN covers others, so any other one names its operation. -/
theorem firstMatch_of_shapes {o : Operation} {word : Int}
    (h : o.Shapes (Instruction.decode word)) (ho : o ≠ .systemCall) :
    firstMatch opcodeTable word = some o := by
  rw [← firstMatch_decode]
  exact (firstMatch_eq_some_iff_shapes _ o).mpr ⟨h, fun o' hcovers => absurd hcovers.1 ho⟩

/-- A word that names an operation has no other shape, but perhaps that of 0NNN. -/
theorem shapes_iff_eq_of_named {i : Instruction} {o o' : Operation}
    (ho : firstMatch opcodeTable i.raw.toNat = some o) (ho' : o' ≠ .systemCall) :
    o'.Shapes i ↔ o' = o := by
  constructor
  · intro hshapes
    have hnamed := (firstMatch_eq_some_iff_shapes i o').mpr
      ⟨hshapes, fun _ hcovers => absurd hcovers.1 ho'⟩
    exact Option.some.inj (hnamed.symm.trans ho)
  · rintro rfl
    exact ((firstMatch_eq_some_iff_shapes i o').mp ho).1

namespace State

/-- A word in the shape of an operation is carried out as that operation, if it is permitted. -/
theorem execute_of_shapes {s : State} {word : Int} {o : Operation}
    (h : o.Shapes (Instruction.decode word)) (ho : o ≠ .systemCall)
    (hpermit : o.permit (Instruction.decode word) s = .ok ()) :
    s.execute word = .ok (o.perform Edge.standard (Instruction.decode word) s) :=
  (executeWith_eq_ok_iff ..).mpr ⟨o, firstMatch_of_shapes h ho, hpermit, rfl⟩

end State

end Chip8
