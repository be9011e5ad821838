/-
Chip8.Text.Numeral — numbers written out: positional digits in any base,
upper-case hexadecimal with a least width, decimal with thousands
separators, and columns filled on the left.

* `digits b n` lists the digits of `n` in base `b`, most significant
  first, and `ofDigits_digits` reads them back.
* `hex width v` counts the minus sign as one of the `width` characters,
  so a negative number shows one digit fewer before it grows.
-/
namespace Chip8.Text

/-! ## Digits -/

/-- The digits of a number in base `b`, most significant first; at least one digit. -/
def digits (b n : Nat) : List Nat :=
  if _h : 2 ≤ b ∧ b ≤ n then digits b (n / b) ++ [n % b] else [n]
termination_by n
decreasing_by exact Nat.div_lt_self (by omega) (by omega)

/-- The number that a list of digits stands for. -/
def ofDigits (b : Nat) (ds : List Nat) : Nat :=
  ds.foldl (fun acc d => acc * b + d) 0

/-- Reading the digits of a number gives the number. -/
theorem ofDigits_digits (b n : Nat) : ofDigits b (digits b n) = n := by
  fun_induction digits b n with
  | case1 n h ih =>
    simp only [ofDigits, List.foldl_append, List.foldl_cons, List.foldl_nil] at ih ⊢
    rw [ih, Nat.mul_comm]
    exact Nat.div_add_mod n b
  | case2 n h => simp [ofDigits]

/-- Every digit of a number in base 2 or more lies below the base. -/
theorem digits_lt {b : Nat} (hb : 2 ≤ b) (n : Nat) : ∀ d ∈ digits b n, d < b := by
  fun_induction digits b n with
  | case1 n h ih =>
    intro d hd
    rcases List.mem_append.1 hd with hd | hd
    · exact ih d hd
    · rw [List.mem_singleton.1 hd]
      exact Nat.mod_lt n (by omega)
  | case2 n h =>
    intro d hd
    rw [List.mem_singleton.1 hd]
    omega

/-- The character of a digit below sixteen, in upper case. -/
def digitChar (d : Nat) : Char :=
  if d < 10 then Char.ofNat (48 + d) else Char.ofNat (55 + d)

/-- A natural number in base ten. -/
def decimal (n : Nat) : String :=
  String.ofList ((digits 10 n).map digitChar)

/-- An integer in base ten, with a minus sign if it is negative. -/
def integer (v : Int) : String :=
  if v < 0 then "-" ++ decimal v.natAbs else decimal v.natAbs

/-! ## Columns -/

/-- Fill a text with `c` on the left up to `width` characters. -/
def padLeft (width : Nat) (c : Char) (s : String) : String :=
  String.ofList (List.replicate (width - s.length) c) ++ s

/-- An integer in upper-case hexadecimal, filled with zeros; a minus sign counts
towards the width. -/
def hex (width : Nat) (v : Int) : String :=
  let body := String.ofList ((digits 16 v.natAbs).map digitChar)
  if v < 0 then "-" ++ padLeft (width - 1) '0' body else padLeft width '0' body

/-! ## Thousands separators -/

/-- Put a comma before every third character, counted from the end of the list. -/
def separate : List Char → List Char
  | [] => []
  | c :: rest =>
    if rest.length % 3 = 0 ∧ rest ≠ [] then c :: ',' :: separate rest else c :: separate rest

/-- An integer in base ten with commas between groups of three digits. -/
def grouped (v : Int) : String :=
  let body := String.ofList (separate ((digits 10 v.natAbs).map digitChar))
  if v < 0 then "-" ++ body else body

end Chip8.Text
