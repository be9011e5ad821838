/-
Chip8.Text.Binary64 — double-precision numbers written out exactly.

A finite double is `m * 2 ^ q` for a natural `m` and an integer `q`
(`Binary64.ofFloat` reads both off the bits). Its text is the rounding of
that exact value to a decimal grid, a half going to the even neighbour
(`roundDiv`), so no rounding error of an intermediate step can show.

* `Binary64.fixed places` has a set number of places after the point.
* `Binary64.general` has six significant digits without trailing zeros,
  positional from 10^-4 up to below 10^6 and with an exponent elsewhere.
* `Binary64.nearest` goes the other way, from a fraction to a double.
-/
import Chip8.Text.Numeral

namespace Chip8.Text

/-- The quotient rounded to the nearest natural number, a half to the even neighbour. -/
def roundDiv (num den : Nat) : Nat :=
  let q := num / den
  let twice := 2 * (num % den)
  if twice < den then q
  else if den < twice then q + 1
  else if q % 2 = 0 then q else q + 1

/-- The size of a double: `m * 2 ^ q`, beyond every number, or no number. -/
inductive Magnitude where
  | finite (m : Nat) (q : Int)
  | infinite
  | notANumber
deriving DecidableEq, Repr

/-- A double as its sign and size. -/
structure Binary64 where
  negative : Bool
  magnitude : Magnitude
deriving DecidableEq, Repr

namespace Binary64

/-- Read sign, exponent and fraction off the bits of a double. -/
def ofBits (bits : Nat) : Binary64 :=
  let negative : Bool := bits / 0x8000000000000000 % 2 = 1
  let exponent : Nat := bits / 0x10000000000000 % 2048
  let fraction : Nat := bits % 0x10000000000000
  let magnitude :=
    if exponent = 2047 then
      if fraction = 0 then .infinite else .notANumber
    else if exponent = 0 then .finite fraction (-1074)
    else .finite (fraction + 0x10000000000000) ((exponent : Int) - 1075)
  ⟨negative, magnitude⟩

/-- The sign and size of a double. -/
def ofFloat (x : Float) : Binary64 := ofBits x.toBits.toNat

/-- Write `m * 2 ^ q` as a fraction of natural numbers. -/
def fraction (m : Nat) (q : Int) : Nat × Nat :=
  if 0 ≤ q then (m * Nat.pow 2 q.toNat, 1) else (m, Nat.pow 2 (-q).toNat)

/-- The text of a sign followed by the text of a size; "nan" carries no sign. -/
def signed (x : Binary64) (body : Nat → Nat → String) : String :=
  match x.magnitude with
  | .notANumber => "nan"
  | .infinite => if x.negative then "-inf" else "inf"
  | .finite m q =>
    let (num, den) := fraction m q
    if x.negative then "-" ++ body num den else body num den

/-! ## A set number of places -/

/-- A fraction rounded to `places` digits after the point. -/
def fixedBody (places num den : Nat) : String :=
  let scaled := roundDiv (num * Nat.pow 10 places) den
  let whole := decimal (scaled / Nat.pow 10 places)
  if places = 0 then whole
  else whole ++ "." ++ padLeft places '0' (decimal (scaled % Nat.pow 10 places))

/-- A double with a set number of digits after the point. -/
def fixed (places : Nat) (x : Float) : String :=
  (ofFloat x).signed (fixedBody places)

/-! ## Six significant digits -/

/-- The number of significant digits of the general form. -/
def significant : Nat := 6

/-- `num / den` times ten to the power `e`, as a fraction. -/
def scale (num den : Nat) (e : Int) : Nat × Nat :=
  if 0 ≤ e then (num * Nat.pow 10 e.toNat, den) else (num, den * Nat.pow 10 (-e).toNat)

/-- The exponent `e` with `10 ^ e ≤ num / den < 10 ^ (e + 1)`, for a positive fraction. -/
def decimalExponent (num den : Nat) : Int :=
  let guess : Int := (digits 10 num).length - (digits 10 den).length
  let (n, d) := scale num den (-guess)
  if n < d then guess - 1 else guess

/-- The six digits nearest to a positive fraction, with the decimal exponent of the first;
rounding up to the next power of ten raises the exponent. -/
def leading (num den : Nat) : Nat × Int :=
  let e := decimalExponent num den
  let (n, d) := scale num den ((significant : Int) - 1 - e)
  let rounded := roundDiv n d
  if rounded = Nat.pow 10 significant then (Nat.pow 10 (significant - 1), e + 1) else (rounded, e)

/-- Digits after a point without their trailing zeros; no point if none is left. -/
def trimmed (ds : List Char) : String :=
  let kept := (ds.reverse.dropWhile (· == '0')).reverse
  if kept.isEmpty then "" else "." ++ String.ofList kept

/-- A decimal exponent: sign and at least two digits. -/
def exponentText (e : Int) : String :=
  (if e < 0 then "e-" else "e+") ++ padLeft 2 '0' (decimal e.natAbs)

/-- A fraction in the general form. -/
def generalBody (num den : Nat) : String :=
  if num = 0 then "0"
  else
    let (rounded, e) := leading num den
    let ds := (digits 10 rounded).map digitChar
    if e < -4 ∨ (significant : Int) ≤ e then
      String.ofList (ds.take 1) ++ trimmed (ds.drop 1) ++ exponentText e
    else if e < 0 then
      "0" ++ trimmed (List.replicate ((-e).toNat - 1) '0' ++ ds)
    else
      String.ofList (ds.take (e.toNat + 1)) ++ trimmed (ds.drop (e.toNat + 1))

/-- A double with six significant digits, trailing zeros dropped. -/
def general (x : Float) : String :=
  (ofFloat x).signed generalBody

/-! ## Reading -/

/-- The double nearest to a positive fraction, a half to the even neighbour: the fraction is
rounded to 53 binary digits, or to the grid of the smallest doubles. -/
def nearest (num den : Nat) : Float :=
  let times (e : Int) : Nat × Nat :=
    if 0 ≤ e then (num, den * Nat.pow 2 e.toNat) else (num * Nat.pow 2 (-e).toNat, den)
  let guess : Int := (num.log2 : Int) - den.log2
  let below := let (a, b) := times guess; decide (a < b)
  let top := if below then guess - 1 else guess
  let e := max (top - 52) (-1074)
  let (a, b) := times e
  (roundDiv a b).toUInt64.toFloat.scaleB e

/-- The smallest natural number that rounds to the power 1024 of two, which no double is. -/
def bound : Nat := Nat.pow 2 1024 - Nat.pow 2 970

/-- Whether some double is near the fraction of an integer and a positive number. -/
def holdsRatio (v : Int) (den : Nat) : Bool := v.natAbs < bound * den

/-- Whether some double is near an integer. -/
def holds (v : Int) : Bool := holdsRatio v 1

/-- The double nearest to the fraction of an integer and a positive number; beyond every double
it is infinite. -/
def ofRatio (v : Int) (den : Nat) : Float :=
  if v = 0 then 0 else if v < 0 then -nearest v.natAbs den else nearest v.natAbs den

/-- The double nearest to an integer; beyond every double it is infinite. -/
def ofInt (v : Int) : Float := ofRatio v 1

end Binary64

end Chip8.Text
