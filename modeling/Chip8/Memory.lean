/-
Chip8.Memory — the 4096 bytes of memory, the built-in font, and indexed
access that says what happens outside an array.

* `readAt` and `writeAt` take any integer as an index and, for an index
  outside the array, the behaviour to follow there.
* `Memory.initial` holds the glyphs of the sixteen digits from address 0,
  five bytes each, and zeros everywhere else.
* `Memory.load` copies bytes to consecutive addresses.
-/
namespace Chip8

/-! ## Access with a rule for the outside -/

/-- The entry at an index; `outside` answers for an index that is none of the array's. -/
def readAt {α : Type} {n : Nat} (v : Vector α n) (outside : Int → α) (i : Int) : α :=
  if h : 0 ≤ i ∧ i < n then v[i.toNat] else outside i

/-- Replace the entry at an index; `outside` answers for an index that is none of the array's. -/
def writeAt {α : Type} {n : Nat} (v : Vector α n) (outside : Int → α → Vector α n) (i : Int)
    (a : α) : Vector α n :=
  if h : 0 ≤ i ∧ i < n then v.set i.toNat a (by omega) else outside i a

/-- Inside the array an access follows the array alone. -/
theorem readAt_of_lt {α : Type} {n : Nat} (v : Vector α n) (outside : Int → α) {i : Nat}
    (h : i < n) : readAt v outside i = v[i] := by
  have hi : (0 : Int) ≤ i ∧ (i : Int) < n := by omega
  simp only [readAt, dif_pos hi, Int.toNat_natCast]

/-- Inside the array a write follows the array alone. -/
theorem writeAt_of_lt {α : Type} {n : Nat} (v : Vector α n) (outside : Int → α → Vector α n)
    {i : Nat} (a : α) (h : i < n) : writeAt v outside i a = v.set i a h := by
  have hi : (0 : Int) ≤ i ∧ (i : Int) < n := by omega
  simp only [writeAt, dif_pos hi, Int.toNat_natCast]

/-! ## Memory -/

/-- The bytes of a machine. -/
abbrev Memory := Vector UInt8 4096

namespace Memory

/-- The number of bytes. -/
def size : Nat := 4096

/-- The address of the last byte. -/
def last : Nat := size - 1

/-- The address at which a program starts. -/
def programStart : Nat := 0x200

/-- The most bytes a program may have. -/
def programLimit : Nat := size - programStart

/-- The address of the first glyph of the font. -/
def fontStart : Nat := 0

/-- The bytes of a glyph. -/
def glyphSize : Nat := 5

/-- The glyphs of the digits 0 to F; each byte is a row, the high bit its left pixel. -/
def font : List UInt8 := [
  0xF0, 0x90, 0x90, 0x90, 0xF0,
  0x20, 0x60, 0x20, 0x20, 0x70,
  0xF0, 0x10, 0xF0, 0x80, 0xF0,
  0xF0, 0x10, 0xF0, 0x10, 0xF0,
  0x90, 0x90, 0xF0, 0x10, 0x10,
  0xF0, 0x80, 0xF0, 0x10, 0xF0,
  0xF0, 0x80, 0xF0, 0x90, 0xF0,
  0xF0, 0x10, 0x20, 0x40, 0x40,
  0xF0, 0x90, 0xF0, 0x90, 0xF0,
  0xF0, 0x90, 0xF0, 0x10, 0xF0,
  0xF0, 0x90, 0xF0, 0x90, 0x90,
  0xE0, 0x90, 0xE0, 0x90, 0xE0,
  0xF0, 0x80, 0x80, 0x80, 0xF0,
  0xE0, 0x90, 0x90, 0x90, 0xE0,
  0xF0, 0x80, 0xF0, 0x80, 0xF0,
  0xF0, 0x80, 0xF0, 0x80, 0x80]

/-- Copy bytes to consecutive addresses from `start` on; bytes beyond the end are left out. -/
def load (m : Memory) (start : Nat) : List UInt8 → Memory
  | [] => m
  | b :: rest => load (m.setIfInBounds start b) (start + 1) rest

/-- Memory with just the font. -/
def initial : Memory := load (Vector.replicate 4096 0) fontStart font

/-- Loading puts the bytes where they belong and leaves every other address alone. -/
theorem getElem_load (m : Memory) (start : Nat) (bytes : List UInt8) (a : Nat) (ha : a < 4096) :
    (m.load start bytes)[a] =
      if start ≤ a ∧ a < start + bytes.length then bytes.getD (a - start) 0 else m[a] := by
  induction bytes generalizing m start with
  | nil =>
    rw [load, if_neg (by simp only [List.length_nil]; omega)]
  | cons b rest ih =>
    rw [load, ih, List.length_cons]
    by_cases hs : start = a
    · subst hs
      rw [if_neg (by omega), if_pos (by omega), Vector.getElem_setIfInBounds_self, Nat.sub_self,
        List.getD_cons_zero]
    · rw [Vector.getElem_setIfInBounds_ne ha hs]
      by_cases hr : start + 1 ≤ a ∧ a < start + 1 + rest.length
      · obtain ⟨k, rfl⟩ : ∃ k, a = start + 1 + k := ⟨a - (start + 1), by omega⟩
        have hk : start + 1 + k - start = k + 1 := by omega
        rw [if_pos hr, if_pos (by omega), hk, List.getD_cons_succ, Nat.add_sub_cancel_left]
      · rw [if_neg hr, if_neg (by omega)]

end Memory

end Chip8
