/-
Chip8.Number — numbers as they are given: integers of any size, or doubles.

Integers are exact among themselves. Where an integer meets a double it is
rounded to the nearest double first; an integer that no double is near
(`Number.hasDouble`) cannot be computed with there, and `Number.Overflow`
names the cause. The operations on their own round such an integer to
infinity, so whoever needs to refuse it asks first. Comparisons are exact
in every case.
-/
import Chip8.Text.Binary64

namespace Chip8

/-- An integer of any size, or a double. -/
inductive Number where
  | whole (v : Int)
  | double (x : Float)

namespace Number

/-- Why a number cannot be computed. -/
inductive Overflow where
  /-- An integer that no double is near meets a double. -/
  | operand
  /-- A quotient of two integers lies beyond every double. -/
  | quotient
deriving DecidableEq, Repr

instance (n : Nat) : OfNat Number n := ⟨.whole n⟩

/-- Whether some double is near a number. -/
def hasDouble : Number → Bool
  | .whole v => Text.Binary64.holds v
  | .double _ => true

/-- The nearest double; an integer beyond every double is infinite. -/
def toFloat : Number → Float
  | .whole v => Text.Binary64.ofInt v
  | .double x => x

/-- The nearest double, if some double is near. -/
def nearest (a : Number) : Except Overflow Float :=
  if a.hasDouble then .ok a.toFloat else .error .operand

/-! ## Arithmetic -/

/-- Compute with integers if both numbers are, and with the nearest doubles if not. -/
def combine (onIntegers : Int → Int → Int) (onDoubles : Float → Float → Float) :
    Number → Number → Number
  | .whole a, .whole b => .whole (onIntegers a b)
  | a, b => .double (onDoubles a.toFloat b.toFloat)

instance : Add Number := ⟨combine Int.add Float.add⟩

instance : Sub Number := ⟨combine Int.sub Float.sub⟩

instance : Mul Number := ⟨combine Int.mul Float.mul⟩

/-- A quotient is a double whatever it is a quotient of. -/
instance : Div Number := ⟨fun a b => .double (a.toFloat / b.toFloat)⟩

/-- The sum of two numbers, if it can be computed. -/
def sum (a b : Number) : Except Overflow Number :=
  match a, b with
  | .whole a, .whole b => .ok (.whole (a + b))
  | a, b => do return .double ((← a.nearest) + (← b.nearest))

/-- The difference of two numbers, if it can be computed. -/
def difference (a b : Number) : Except Overflow Number :=
  match a, b with
  | .whole a, .whole b => .ok (.whole (a - b))
  | a, b => do return .double ((← a.nearest) - (← b.nearest))

/-! ## Order -/

/-- How an integer compares with a double; a double that is no number compares with none. -/
def order (v : Int) (x : Float) : Option Ordering :=
  let d := Text.Binary64.ofFloat x
  match d.magnitude with
  | .notANumber => none
  | .infinite => some (if d.negative then .gt else .lt)
  | .finite m q =>
    let (num, den) := Text.Binary64.fraction m q
    some (compare (v * den) (if d.negative then -(num : Int) else num))

/-- Whether a number is at most another one. -/
def le : Number → Number → Bool
  | .whole a, .whole b => decide (a ≤ b)
  | .whole a, .double y => (order a y).any Ordering.isLE
  | .double x, .whole b => (order b x).any Ordering.isGE
  | .double x, .double y => decide (x ≤ y)

/-- Whether a number is less than another one. -/
def lt : Number → Number → Bool
  | .whole a, .whole b => decide (a < b)
  | .whole a, .double y => (order a y).any Ordering.isLT
  | .double x, .whole b => (order b x).any Ordering.isGT
  | .double x, .double y => decide (x < y)

instance : LE Number := ⟨fun a b => a.le b = true⟩

instance : LT Number := ⟨fun a b => a.lt b = true⟩

instance : DecidableLE Number := fun a b => inferInstanceAs (Decidable (a.le b = true))

instance : DecidableLT Number := fun a b => inferInstanceAs (Decidable (a.lt b = true))

/-- Whether a number is the double that is none. -/
def isNaN : Number → Bool
  | .whole _ => false
  | .double x => x.isNaN

end Number

end Chip8
