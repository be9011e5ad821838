/-
Chip8.Machine.Config — the rates of a machine.

Times and rates are of any type `τ` with the usual operations: numbers as
they are given when a machine runs, rationals where rounding is to be left
out. A number too large to divide by and to write out cannot be a rate
(`HasRates`); a configuration may hold one, but no machine runs at it.
-/
import Chip8.Number

namespace Chip8

/-- Numbers of which some can be rates: a rate has a period and can be written out. -/
class HasRates (τ : Type) where
  isRate : τ → Bool

/-- Every double can be a rate. -/
instance : HasRates Float := ⟨fun _ => true⟩

/-- A rate is near some double. -/
instance : HasRates Number := ⟨Number.hasDouble⟩

/-- Every rational number can be a rate. -/
instance : HasRates Rat := ⟨fun _ => true⟩

/-- How often a machine acts, how long it sleeps when it has nothing to do, and its seed. -/
structure Config (τ : Type) where
  instructionRate : τ
  timerRate : τ
  pause : τ
  seed : Int

/-- What is wrong with a configuration. -/
inductive ConfigError where
  | rate
  | pause
deriving DecidableEq, Repr

/-- The sentence that describes what is wrong. -/
def ConfigError.message : ConfigError → String
  | .rate => "Frequencies must be positive"
  | .pause => "idle_sleep must not be negative"

namespace Config

/-- Five hundred instructions and sixty timer ticks a second. -/
def standard : Config Number where
  instructionRate := 500
  timerRate := 60
  pause := .double 0.0005
  seed := 0

variable {τ : Type} [OfNat τ 0] [OfNat τ 1] [Div τ] [LE τ] [DecidableLE τ] [LT τ] [DecidableLT τ]
  [HasRates τ]

/-- Refuse a rate that is not positive, then a negative sleep. -/
def validate (c : Config τ) : Except ConfigError (Config τ) :=
  if c.instructionRate ≤ 0 ∨ c.timerRate ≤ 0 then .error .rate
  else if c.pause < 0 then .error .pause
  else .ok c

/-- Whether both rates can be rates. -/
def hasRates (c : Config τ) : Bool :=
  HasRates.isRate c.instructionRate && HasRates.isRate c.timerRate

/-- The time between two instructions. -/
def instructionPeriod (c : Config τ) : τ := 1 / c.instructionRate

/-- The time between two timer ticks. -/
def timerPeriod (c : Config τ) : τ := 1 / c.timerRate

/-- Both periods, that of the instructions first, unless one of them cannot be computed. -/
def periods? (c : Config τ) : Option (τ × τ) :=
  if c.hasRates then some (c.instructionPeriod, c.timerPeriod) else none

end Config

end Chip8
