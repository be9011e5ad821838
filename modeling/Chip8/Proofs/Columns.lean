/-
Chip8.Proofs.Columns — numbers behind labels are read back from a text.

A `Column` writes one number of a record: a label, and then the number in
some base, with zeros in front of it or without. Its label begins with a
character that is no digit (`Breaks`), and so a numeral ends where the next
label begins, however wide it is: that is all that keeps two neighbouring
numbers apart. `Column.read?_write` says that the columns of a record are
read back, and what stands behind them is left.
-/
import Mathlib.Data.List.Basic
import Chip8.Text.Numeral

namespace Chip8.Text

/-! ## Digits -/

/-- The digit that a character shows in a base, if it shows one. -/
def digitValue? (b : Nat) (c : Char) : Option Nat :=
  (List.range b).find? fun d => digitChar d == c

theorem digitValue?_digitChar {b d : Nat} (hb : b ≤ 16) (hd : d < b) :
    digitValue? b (digitChar d) = some d := by
  have hinj : ∀ e < 16, ∀ e' < 16, digitChar e = digitChar e' → e = e' := by decide
  refine List.find?_range_eq_some.mpr ⟨beq_self_eq_true _, List.mem_range.mpr hd, fun e he => ?_⟩
  have hne : digitChar e ≠ digitChar d := fun h =>
    Nat.ne_of_lt he (hinj e (by omega) d (by omega) h)
  rw [beq_eq_false_iff_ne.mpr hne]
  rfl

/-- A text whose first character is no digit, not even of base 16. -/
def Breaks (cs : List Char) : Prop := ∃ c rest, cs = c :: rest ∧ digitValue? 16 c = none

theorem Breaks.append {cs : List Char} (h : Breaks cs) (more : List Char) :
    Breaks (cs ++ more) := by
  obtain ⟨c, rest, rfl, hc⟩ := h
  exact ⟨c, rest ++ more, rfl, hc⟩

/-- What is no digit of base 16 is none of a lower base. -/
theorem digitValue?_eq_none {b : Nat} (hb : b ≤ 16) {c : Char} (h : digitValue? 16 c = none) :
    digitValue? b c = none := by
  refine List.find?_eq_none.mpr fun d hd => ?_
  have hlt := List.mem_range.mp hd
  exact List.find?_eq_none.mp h d (List.mem_range.mpr (by omega))

/-- Read the digits at the front of a text behind a number that is read already; the answer is the
number and what is left of the text. -/
def readDigits (b : Nat) : Nat → List Char → Nat × List Char
  | n, [] => (n, [])
  | n, c :: rest =>
    match digitValue? b c with
    | some d => readDigits b (n * b + d) rest
    | none => (n, c :: rest)

/-- Digits are read up to the first character that is none. -/
theorem readDigits_append {b : Nat} (hb : b ≤ 16) {ds : List Nat} (hds : ∀ d ∈ ds, d < b) (n : Nat)
    {rest : List Char} (hrest : Breaks rest) :
    readDigits b n (ds.map digitChar ++ rest) =
      (ds.foldl (fun acc d => acc * b + d) n, rest) := by
  induction ds generalizing n with
  | nil =>
    obtain ⟨c, more, rfl, hc⟩ := hrest
    rw [List.map_nil, List.nil_append, readDigits, digitValue?_eq_none hb hc]
    rfl
  | cons d ds ih =>
    have hd := digitValue?_digitChar hb (hds d List.mem_cons_self)
    rw [List.map_cons, List.cons_append, readDigits, hd]
    exact ih (fun e he => hds e (List.mem_cons_of_mem d he)) (n * b + d)

/-! ## Numerals -/

/-- A text shows a number in a base: it is the digits of the number behind any zeros. -/
def Shows (b n : Nat) (text : String) : Prop :=
  ∃ zeros, text.toList = (List.replicate zeros 0 ++ digits b n).map digitChar

theorem shows_decimal (n : Nat) : Shows 10 n (decimal n) :=
  ⟨0, by rw [decimal, String.toList_ofList, List.replicate_zero, List.nil_append]⟩

/-- The least width of a hexadecimal numeral is filled with zeros; a longer one is not cut. -/
theorem shows_hex (width n : Nat) : Shows 16 n (hex width n) := by
  have hzero : digitChar 0 = '0' := by decide
  refine ⟨width - (digits 16 n).length, ?_⟩
  rw [hex, if_neg (by omega), padLeft, String.toList_append, String.toList_ofList,
    String.toList_ofList, String.length_ofList, List.length_map, Int.natAbs_natCast,
    List.map_append, List.map_replicate, hzero]

theorem foldl_zeros (b zeros : Nat) :
    (List.replicate zeros 0).foldl (fun acc d => acc * b + d) 0 = 0 := by
  induction zeros with
  | zero => rfl
  | succ zeros ih => rw [List.replicate_succ, List.foldl_cons, Nat.zero_mul, Nat.zero_add, ih]

/-- A number is read back from a text that shows it. -/
theorem readDigits_of_shows {b n : Nat} (hb : 2 ≤ b ∧ b ≤ 16) {text : String} (h : Shows b n text)
    {rest : List Char} (hrest : Breaks rest) :
    readDigits b 0 (text.toList ++ rest) = (n, rest) := by
  obtain ⟨zeros, htext⟩ := h
  have hdigits : ∀ d ∈ List.replicate zeros 0 ++ digits b n, d < b := by
    intro d hd
    rcases List.mem_append.mp hd with hd | hd
    · rw [List.eq_of_mem_replicate hd]
      omega
    · exact digits_lt hb.1 n d hd
  rw [htext, readDigits_append hb.2 hdigits 0 hrest, List.foldl_append, foldl_zeros]
  exact congrArg (·, rest) (ofDigits_digits b n)

/-! ## Columns -/

/-- A number of a record and how it is written: a label, and the number in a base. -/
structure Column (α : Type) where
  label : String
  base : Nat
  value : α → Nat
  numeral : α → String
  base_bounds : 2 ≤ base ∧ base ≤ 16
  numeral_shows : ∀ a, Shows base (value a) (numeral a)
  label_breaks : Breaks label.toList

namespace Column

variable {α : Type}

/-- The text of the columns of a record. -/
def write (columns : List (Column α)) (a : α) : List Char :=
  columns.flatMap fun c => c.label.toList ++ (c.numeral a).toList

theorem write_cons (c : Column α) (columns : List (Column α)) (a : α) :
    write (c :: columns) a = c.label.toList ++ (c.numeral a).toList ++ write columns a :=
  List.flatMap_cons

theorem write_append (columns more : List (Column α)) (a : α) :
    write (columns ++ more) a = write columns a ++ write more a := List.flatMap_append

/-- The numbers behind the labels of columns, and what is left of the text. -/
def read? : List (Column α) → List Char → Option (List Nat × List Char)
  | [], text => some ([], text)
  | c :: columns, text =>
    (c.label.toList.isPrefixOf? text).bind fun behind =>
      let found := readDigits c.base 0 behind
      (read? columns found.2).map fun others => (found.1 :: others.1, others.2)

theorem isPrefixOf?_append (label rest : List Char) :
    label.isPrefixOf? (label ++ rest) = some rest := by
  induction label with
  | nil => simp
  | cons c label ih => rw [List.cons_append, List.isPrefixOf?, if_pos (beq_self_eq_true c), ih]

/-- Columns, and what does not go on with a digit, do not go on with one. -/
theorem breaks_write (columns : List (Column α)) (a : α) {rest : List Char} (hrest : Breaks rest) :
    Breaks (write columns a ++ rest) := by
  cases columns with
  | nil => exact hrest
  | cons c columns =>
    rw [write_cons, List.append_assoc, List.append_assoc]
    exact c.label_breaks.append _

/-- **The numbers of a record are read back** from its columns. -/
theorem read?_write (columns : List (Column α)) (a : α) {rest : List Char} (hrest : Breaks rest) :
    read? columns (write columns a ++ rest) = some (columns.map fun c => c.value a, rest) := by
  induction columns with
  | nil => rfl
  | cons c columns ih =>
    have hnumeral := readDigits_of_shows c.base_bounds (c.numeral_shows a)
      (breaks_write columns a hrest)
    have hwrite : write (c :: columns) a ++ rest =
        c.label.toList ++ ((c.numeral a).toList ++ (write columns a ++ rest)) := by
      rw [write_cons, List.append_assoc, List.append_assoc]
    rw [hwrite, read?, isPrefixOf?_append, Option.bind_some, hnumeral]
    dsimp only
    rw [ih]
    rfl

end Column

end Chip8.Text
