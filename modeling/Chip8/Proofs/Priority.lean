/-
Chip8.Proofs.Priority — how far the order of the opcode table matters.

A word may fit several patterns, and the first one names its operation. In
the opcode table this happens for two words only: 00E0 and 00EE fit a
pattern of their own and that of 0NNN (`overlap_iff`). Another order of the
table therefore names the same operations if, and only if, these two stand
before 0NNN (`firstMatch_of_perm`, `position_lt_of_firstMatch`).

Both directions look at `position_le_of_firstMatch`: the operation that a
table names stands before every other one whose pattern fits. Words are
integers of any size; all but the report of an unknown one depends on their
sixteen low bits alone (`ofWord_emod`, `execute_emod`).
-/
import Mathlib.Data.List.Basic
import Mathlib.Data.List.Rotate
import Chip8.Proofs.Shapes

namespace Chip8

/-! ## Sixteen low bits -/

theorem decode_emod (word : Int) : Instruction.decode (word % 65536) = Instruction.decode word := by
  rw [← toNat_decode, decode_toNat]

/-- The operation of a word is that of its sixteen low bits, but an unknown word is reported as it
was given. -/
theorem ofWord_emod (word : Int) :
    Operation.ofWord word =
      (Operation.ofWord (word % 65536)).mapError fun _ => .unknownInstruction word := by
  unfold Operation.ofWord
  rw [← firstMatch_decode word, ← toNat_decode]
  cases firstMatch opcodeTable (Instruction.decode word).raw.toNat with
  | none => rfl
  | some o => rfl

/-- An execution looks at the sixteen low bits of a word only. -/
theorem State.execute_emod (s : State) (word : Int) :
    s.execute word = s.execute (word % 65536) := by
  unfold execute executeWith
  rw [decode_emod]

/-! ## The first match -/

/-- The place of an operation in a table, counted from the top. -/
def Operation.position (o : Operation) (table : List Pattern) : Nat :=
  (table.map (·.operation)).idxOf o

open Operation

section

variable {table : List Pattern} {word : Int}

/-- The operation that a table names for a word stands before all others whose patterns fit. -/
theorem position_le_of_firstMatch (hdistinct : (table.map (·.operation)).Nodup) {o : Operation}
    (hfirst : firstMatch table word = some o) {q : Pattern} (hq : q ∈ table)
    (hfits : q.fits word = true) : o.position table ≤ q.operation.position table := by
  obtain ⟨p, hfind, rfl⟩ := Option.map_eq_some_iff.mp hfirst
  obtain ⟨-, earlier, later, rfl, hearlier⟩ := List.find?_eq_some_iff_append.mp hfind
  have hrest : q ∈ p :: later := by
    rcases List.mem_append.mp hq with hmem | hmem
    · have hnot := hearlier q hmem
      simp [hfits] at hnot
    · exact hmem
  rw [List.map_append, List.nodup_append] at hdistinct
  have hnew : ∀ r ∈ p :: later, r.operation ∉ earlier.map (·.operation) := fun r hr hmem =>
    hdistinct.2.2 _ hmem _ (List.mem_map_of_mem hr) rfl
  unfold position
  rw [List.map_append, List.idxOf_append_of_notMem (hnew p List.mem_cons_self),
    List.idxOf_append_of_notMem (hnew q hrest), List.map_cons, List.idxOf_cons_self]
  omega

/-- A table has an operation for a word if one of its patterns fits. -/
theorem exists_firstMatch {p : Pattern} (hp : p ∈ table) (hfits : p.fits word = true) :
    ∃ q ∈ table, q.fits word = true ∧ firstMatch table word = some q.operation := by
  cases hfind : table.find? (·.fits word) with
  | none => exact absurd hfits (List.find?_eq_none.mp hfind p hp)
  | some q =>
    have hqfits := List.find?_some hfind
    refine ⟨q, List.mem_of_find?_eq_some hfind, hqfits, ?_⟩
    rw [firstMatch, hfind]
    rfl

end

/-! ## Words that fit two patterns -/

theorem Operation.Covers.ne {o o' : Operation} (h : o.Covers o') : o' ≠ o := by
  obtain ⟨rfl, rfl | rfl⟩ := h
  · decide
  · decide

/-- No two patterns of the opcode table have one operation. -/
theorem nodup_operations : (opcodeTable.map (·.operation)).Nodup := by decide

/-- The same of an integer of any size. -/
theorem eq_or_covers_of_fits_word {p q : Pattern} (hp : p ∈ opcodeTable) (hq : q ∈ opcodeTable)
    {word : Int} (hpw : p.fits word = true) (hqw : q.fits word = true) :
    p.operation = q.operation ∨ p.operation.Covers q.operation ∨
      q.operation.Covers p.operation := by
  rw [← fits_decode hp] at hpw
  rw [← fits_decode hq] at hqw
  exact eq_or_covers_of_fits hp hq hpw hqw

/-- Where the code of one operation covers that of another, the word of the other one fits both. -/
theorem fits_value_of_covers {p q : Pattern} (hp : p ∈ opcodeTable) (hq : q ∈ opcodeTable)
    (hcovers : p.operation.Covers q.operation) :
    p.fits q.value = true ∧ q.fits q.value = true := by
  have h : ∀ p ∈ opcodeTable, ∀ q ∈ opcodeTable, p.operation.Covers q.operation →
      p.fits q.value = true ∧ q.fits q.value = true := by
    decide +kernel
  exact h p hp q hq hcovers

/-- **The overlaps of the table**: two of its patterns fit a common word only if they are those of
0NNN and of 00E0 or 00EE. -/
theorem overlap_iff {p q : Pattern} (hp : p ∈ opcodeTable) (hq : q ∈ opcodeTable) (hne : p ≠ q) :
    (∃ word : Int, p.fits word = true ∧ q.fits word = true) ↔
      p.operation.Covers q.operation ∨ q.operation.Covers p.operation := by
  constructor
  · rintro ⟨word, hpw, hqw⟩
    refine (eq_or_covers_of_fits_word hp hq hpw hqw).resolve_left fun heq => hne ?_
    exact List.inj_on_of_nodup_map nodup_operations hp hq heq
  · rintro (hcovers | hcovers)
    · exact ⟨q.value, fits_value_of_covers hp hq hcovers⟩
    · exact ⟨p.value, (fits_value_of_covers hq hp hcovers).symm⟩

/-! ## Other orders of the table -/

section

variable {table : List Pattern} (hperm : table.Perm opcodeTable)

include hperm

/-- A table with 0NNN below 00E0 and 00EE names the operations of the opcode table. -/
theorem firstMatch_of_perm
    (horder : ∀ o o', Covers o o' → o'.position table < o.position table) (word : Int) :
    firstMatch table word = firstMatch opcodeTable word := by
  have hdistinct := (hperm.map (·.operation)).nodup_iff.mpr nodup_operations
  cases hnamed : firstMatch opcodeTable word with
  | none =>
    have hnone := (firstMatch_eq_none_iff word).mp hnamed
    refine Option.map_eq_none_iff.mpr (List.find?_eq_none.mpr fun p hp => ?_)
    simp [hnone p (hperm.mem_iff.mp hp)]
  | some o =>
    obtain ⟨p, hfind, rfl⟩ := Option.map_eq_some_iff.mp hnamed
    have hp := List.mem_of_find?_eq_some hfind
    have hpw := List.find?_some hfind
    obtain ⟨q, hq, hqw, hfirst⟩ := exists_firstMatch (hperm.mem_iff.mpr hp) hpw
    have hq' := hperm.mem_iff.mp hq
    rcases eq_or_covers_of_fits_word hp hq' hpw hqw with heq | hcovers | hcovers
    · rw [hfirst, heq]
    · -- The opcode table names the operation that is covered.
      have hshapes := (fits_iff_shapes hq' _).mp ((fits_decode hq' word).trans hqw)
      rw [hfirst, ← hnamed, ← firstMatch_decode, firstMatch_of_covered hcovers hshapes]
    · have hbefore := position_le_of_firstMatch hdistinct hfirst (hperm.mem_iff.mpr hp) hpw
      exact absurd hbefore (Nat.not_le_of_lt (horder _ _ hcovers))

/-- A table that names the operations of the opcode table has 0NNN below 00E0 and 00EE. -/
theorem position_lt_of_firstMatch
    (hsame : ∀ word : Int, firstMatch table word = firstMatch opcodeTable word) {o o' : Operation}
    (hcovers : o.Covers o') : o'.position table < o.position table := by
  have hdistinct := (hperm.map (·.operation)).nodup_iff.mpr nodup_operations
  obtain ⟨p, hp, rfl⟩ := o.exists_pattern
  obtain ⟨q, hq, rfl⟩ := o'.exists_pattern
  obtain ⟨hpw, hqw⟩ := fits_value_of_covers hp hq hcovers
  have hfirst : firstMatch table q.value = some q.operation := by
    have hshapes := (fits_iff_shapes hq _).mp ((fits_decode hq q.value).trans hqw)
    rw [hsame, ← firstMatch_decode, firstMatch_of_covered hcovers hshapes]
  have hle := position_le_of_firstMatch hdistinct hfirst (hperm.mem_iff.mpr hp) hpw
  refine lt_of_le_of_ne hle fun heq => ?_
  have hmem : q.operation ∈ table.map (·.operation) :=
    List.mem_map_of_mem (hperm.mem_iff.mpr hq)
  exact hcovers.ne ((List.idxOf_inj hmem).mp heq)

end

/-- **The priority of the opcode table.** What a word names depends on its sixteen low bits alone,
but an unknown word is reported as it was given, and an execution sees no more of a word than these
bits. Two patterns of the table fit a common word exactly if they are those of 0NNN and of 00E0 or
00EE; and the table in another order names the same operations exactly if 00E0 and 00EE both stand
before 0NNN. -/
theorem opcode_priority :
    (∀ word : Int, Operation.ofWord word =
      (Operation.ofWord (word % 65536)).mapError fun _ => .unknownInstruction word) ∧
    (∀ (s : State) (word : Int), s.execute word = s.execute (word % 65536)) ∧
    (∀ p ∈ opcodeTable, ∀ q ∈ opcodeTable, p ≠ q →
      ((∃ word : Int, p.fits word = true ∧ q.fits word = true) ↔
        p.operation.Covers q.operation ∨ q.operation.Covers p.operation)) ∧
    ∀ table : List Pattern, table.Perm opcodeTable →
      ((∀ word : Int, firstMatch table word = firstMatch opcodeTable word) ↔
        clearScreen.position table < systemCall.position table ∧
          ret.position table < systemCall.position table) := by
  refine ⟨ofWord_emod, State.execute_emod, fun p hp q hq => overlap_iff hp hq,
    fun table hperm => ⟨fun hsame => ?_, fun ⟨hclear, hret⟩ => ?_⟩⟩
  · exact ⟨position_lt_of_firstMatch hperm hsame ⟨rfl, .inl rfl⟩,
      position_lt_of_firstMatch hperm hsame ⟨rfl, .inr rfl⟩⟩
  · refine firstMatch_of_perm hperm ?_
    rintro o o' ⟨rfl, rfl | rfl⟩
    · exact hclear
    · exact hret

/-- With its first three patterns at the end the table names the same operations, upside down it
does not. -/
theorem opcode_priority_reordered :
    (opcodeTable.rotate 3).Perm opcodeTable ∧ opcodeTable.reverse.Perm opcodeTable ∧
      (∀ word : Int, firstMatch (opcodeTable.rotate 3) word = firstMatch opcodeTable word) ∧
      ¬ ∀ word : Int, firstMatch opcodeTable.reverse word = firstMatch opcodeTable word := by
  obtain ⟨-, -, -, horder⟩ := opcode_priority
  have hrotated := List.rotate_perm opcodeTable 3
  have hreversed := List.reverse_perm opcodeTable
  refine ⟨hrotated, hreversed, (horder _ hrotated).mpr (by decide), fun hsame => ?_⟩
  exact absurd ((horder _ hreversed).mp hsame) (by decide)

end Chip8
