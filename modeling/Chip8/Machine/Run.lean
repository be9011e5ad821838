/-
Chip8.Machine.Run — the loop that fires instructions and timer ticks at
their two rates.

Each iteration reads the clock once. It fires an instruction if one is
due, then a timer tick if one is due and no stop was requested meanwhile,
and sleeps if it fired neither. The loop ends when a stop was requested or
something failed, and the machine is halted either way. A machine whose
rates have no periods does not enter it.

`run` takes the greatest number of iterations; it has no answer if the
loop is not over by then, and a greater number never changes an answer.
-/
import Chip8.Machine.Basic
import Chip8.Machine.Pace

namespace Chip8

/-- A rig in its loop, with the last deadlines of the two activities. -/
structure Loop (ω τ : Type) where
  rig : Rig ω τ
  lastInstruction : τ
  lastTimer : τ

variable {ω τ : Type} [OfNat τ 0] [OfNat τ 1] [OfNat τ 4] [Add τ] [Sub τ] [Mul τ] [Div τ]
  [LE τ] [DecidableLE τ] [LT τ] [DecidableLT τ] [HasRates τ]

namespace Loop

/-- Fire an instruction if one is due: the answer tells whether it did, and how it failed. -/
def fireInstruction (host : Host ω τ) (now : τ) (l : Loop ω τ) :
    Loop ω τ × Bool × Option Failure :=
  let period := l.rig.machine.config.instructionPeriod
  if Pace.isDue l.lastInstruction period now then
    let (rig, failure) := l.rig.cycle host
    ({ l with
        rig := rig
        lastInstruction := Pace.next l.lastInstruction period now }, true, failure)
  else (l, false, none)

/-- Fire a timer tick if one is due and no stop was requested. -/
def fireTimer (host : Host ω τ) (now : τ) (l : Loop ω τ) : Loop ω τ × Bool × Option Failure :=
  let period := l.rig.machine.config.timerPeriod
  if l.rig.machine.goesOn && Pace.isDue l.lastTimer period now then
    let (rig, failure) := l.rig.tick host
    ({ l with
        rig := rig
        lastTimer := Pace.next l.lastTimer period now }, true, failure)
  else (l, false, none)

/-- Sleep once; the sleep may ask for a stop, or fail. -/
def idle (host : Host ω τ) (l : Loop ω τ) : Loop ω τ × Option Failure :=
  match host.sleep l.rig.machine.config.pause l.rig.world with
  | (world, .ok stops) =>
    let machine := if stops then l.rig.machine.stop else l.rig.machine
    ({ l with rig := ⟨machine, world⟩ }, none)
  | (world, .error failure) => ({ l with rig := ⟨l.rig.machine, world⟩ }, some failure)

/-- One iteration, for a clock that shows `now`. -/
def iterateAt (host : Host ω τ) (now : τ) (l : Loop ω τ) : Loop ω τ × Option Failure :=
  match l.fireInstruction host now with
  | (l, _, some failure) => (l, some failure)
  | (l, instructionFired, none) =>
    match l.fireTimer host now with
    | (l, _, some failure) => (l, some failure)
    | (l, timerFired, none) =>
      if instructionFired || timerFired then (l, none) else l.idle host

/-- One iteration. -/
def iterate (host : Host ω τ) (l : Loop ω τ) : Loop ω τ × Option Failure :=
  let (now, rig) := l.rig.readClock host
  iterateAt host now { l with rig := rig }

/-- Iterate until a stop is requested or something fails, at most `fuel` times, and halt. -/
def finish (host : Host ω τ) : Nat → Loop ω τ → Option (Rig ω τ × Option Failure)
  | 0, _ => none
  | fuel + 1, l =>
    if l.rig.machine.goesOn then
      match l.iterate host with
      | (l, some failure) => some (l.rig.halt host (some failure), some failure)
      | (l, none) => finish host fuel l
    else some (l.rig.halt host none, none)

end Loop

namespace Rig

/-- Enter the loop: both activities count from the present. -/
def enterLoop (host : Host ω τ) (s : Rig ω τ) : Loop ω τ :=
  let (now, s) := s.readClock host
  ⟨s, now, now⟩

/-- Run until a stop is requested or something fails, for at most `fuel` iterations. -/
def run (host : Host ω τ) (fuel : Nat) (s : Rig ω τ) : Option (Rig ω τ × Option Failure) :=
  match s.ready host with
  | (s, some failure) => some (s, some failure)
  | (s, none) =>
    if s.machine.config.hasRates then (s.enterLoop host).finish host fuel
    else some (s, some .rateTooLarge)

/-- What is known of the thread that runs a machine. -/
structure Worker where
  name : String
  daemon : Bool

/-- The thread that runs a machine beside a window. -/
def worker : Worker := { name := "octavm-machine", daemon := true }

/-- Run on a thread of its own until that has ended. A failure is dropped: the machine has
recorded it. -/
def runDetached (host : Host ω τ) (fuel : Nat) (s : Rig ω τ) : Option (Rig ω τ) :=
  (s.run host fuel).map (·.1)

end Rig

/-! ## Observers -/

namespace Observer

/-- The observer that does nothing. -/
def silent : Observer ω τ := fun _ _ _ => ([], none)

/-- Request a stop once a number of instructions has been executed. -/
def stopAt (count : Int) : Observer ω τ := fun m _ _ =>
  (if count ≤ m.cycles then [.stop] else [], none)

/-- Report every executed instruction. -/
def trace : Observer ω τ := fun _ _ _ => ([.trace], none)

end Observer

end Chip8
