/-
Chip8.Text.Digit — the decimal digits of all scripts.

A character is a decimal digit if its general category is Number, decimal
digit. The ten digits of a script follow one another from its zero on, so
`zeros` lists the zeros alone, as of Unicode 14.0 and in ascending order.
-/
namespace Chip8.Text

/-- The code points of the digits zero. -/
def zeros : List Nat := [
  48, 1632, 1776, 1984, 2406, 2534, 2662, 2790, 2918, 3046, 3174, 3302, 3430, 3558, 3664, 3792,
  3872, 4160, 4240, 6112, 6160, 6470, 6608, 6784, 6800, 6992, 7088, 7232, 7248, 42528, 43216,
  43264, 43472, 43504, 43600, 44016, 65296, 66720, 68912, 69734, 69872, 69942, 70096, 70384,
  70736, 70864, 71248, 71360, 71472, 71904, 72016, 72784, 73040, 73120, 92768, 92864, 93008,
  120782, 120792, 120802, 120812, 120822, 123200, 123632, 125264, 130032]

/-- Whether a character is a decimal digit of some script. -/
def isDecimalDigit (c : Char) : Bool :=
  zeros.any fun first => first ≤ c.toNat && c.toNat < first + 10

/-- The digits of ASCII are decimal digits. -/
theorem isDecimalDigit_of_isDigit {c : Char} (h : c.isDigit = true) : isDecimalDigit c = true := by
  have hc : 48 ≤ c.toNat ∧ c.toNat ≤ 57 := by
    simp only [Char.isDigit, Bool.and_eq_true, decide_eq_true_eq] at h
    exact h
  have hlo : decide (48 ≤ c.toNat) = true := decide_eq_true hc.1
  have hhi : decide (c.toNat < 48 + 10) = true := decide_eq_true (by omega)
  exact List.any_eq_true.2 ⟨48, List.mem_cons_self, by rw [hlo, hhi]; rfl⟩

end Chip8.Text
