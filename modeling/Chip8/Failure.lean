/-
Chip8.Failure — everything that can end a call on a machine: a fault of
the machine, a seed that is no seed, a rate that is no rate, or a failure that
an adapter or an observer brings along.
-/
import Chip8.Fault

namespace Chip8

/-- Why a call did not return normally. -/
inductive Failure where
  /-- The machine cannot go on. -/
  | fault (f : Fault)
  /-- The seed is no signed word of 64 bits. -/
  | seedOutOfRange (seed : Int)
  /-- One of the rates of the machine is too large to be a rate. -/
  | rateTooLarge
  /-- Something outside the machine failed. -/
  | external (kind message : String)
deriving DecidableEq, Repr

namespace Failure

/-- The kind of a failure. -/
def kind : Failure → String
  | .fault f => f.name
  | .seedOutOfRange _ => "SeedOutOfRangeError"
  | .rateTooLarge => "RateTooLargeError"
  | .external kind _ => kind

/-- The sentence that describes a failure. -/
def message : Failure → String
  | .fault f => f.message
  | .seedOutOfRange seed => "Seed " ++ Text.integer seed ++ " is out of range"
  | .rateTooLarge => "A rate is too large"
  | .external _ message => message

end Failure

end Chip8
