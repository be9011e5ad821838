/-
Chip8.Machine.Pace — when an activity that recurs with a period is due.

An activity is due when at least one period has passed since its last
deadline. Its next deadline is one period after the last and not after the
moment at which it was seen to be due, so late polling does not lower the
rate; an activity that is four more periods behind starts again from the
present instead of catching up.

Times that are given as numbers may be too large for a deadline to be
computed from them, or may sum to none (`Pace.nextChecked`).
-/
import Chip8.Number

namespace Chip8

namespace Pace

variable {τ : Type} [OfNat τ 4] [Add τ] [Sub τ] [Mul τ] [LE τ] [DecidableLE τ]

/-- Whether an activity is due at a time. -/
def isDue (last period now : τ) : Bool := decide (period ≤ now - last)

/-- The deadline that follows the deadline `last` for an activity that fires at the time `now`. -/
def next (last period now : τ) : τ :=
  if 4 * period ≤ now - (last + period) then now else last + period

/-- A deadline computed from numbers as they are given. -/
inductive Deadline where
  | at (time : Number)
  /-- The sum of two infinities of opposite sign. -/
  | undefined

/-- The next deadline, if the last one can be added to the period and the sum be subtracted from
the present. -/
def nextChecked (last period now : Number) : Except Number.Overflow Deadline := do
  let due ← last.sum period
  discard (now.difference due)
  if due.isNaN && !last.isNaN && !period.isNaN then return .undefined
  return .at (next last period now)

end Pace

end Chip8
