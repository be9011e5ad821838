/-
Chip8.Machine.Basic — a machine, the host it runs on, and its lifecycle.

A `Machine` moves through the phases booting, running and halted. While it
runs it has a state, the time at which it started, and a flag that a stop
request clears; once halted it keeps its last state and its first error.

The host is a record of functions over a world of any type `ω`: clocks,
keys, picture, sleep, and an observer that is told of every executed
instruction. An observer answers with actions; these and the failures
that adapters bring along are the only ways in which the host acts on the
machine. Every call takes a `Rig`, a machine in its world, and returns
one together with the failure that ended the call, if any: changes made
before a failure remain.
-/
import Chip8.Bundled
import Chip8.Execute
import Chip8.Failure
import Chip8.Log.Report
import Chip8.Machine.Config

namespace Chip8

/-! ## Machines -/

/-- Where a machine is in its life. -/
inductive Phase (τ : Type) where
  | booting
  /-- `goesOn` is false once a stop was requested. -/
  | running (state : State) (startedAt : τ) (goesOn : Bool)
  /-- The last state, none if the machine never started, and the error that ended it, if any. -/
  | halted (last : Option State) (error : Option Failure)

/-- The name of a phase without what it holds. -/
inductive Status where
  | booting
  | running
  | halted
deriving DecidableEq, Repr

/-- The name of a status. -/
def Status.name : Status → String
  | .booting => "booting"
  | .running => "running"
  | .halted => "halted"

/-- A report and the time at which it was made. -/
structure Entry (τ : Type) where
  time : τ
  report : Report τ

/-- A machine: its program, settings and life so far. -/
structure Machine (τ : Type) where
  program : List UInt8
  config : Config τ
  /-- Reports below this level are not kept. -/
  threshold : Level
  phase : Phase τ
  /-- The keys that were held when they were last sampled. -/
  sampled : Keypad
  /-- The instruction executed last. -/
  previous : Option Instruction
  /-- The number of instructions executed. -/
  cycles : Nat
  /-- The number of timer ticks. -/
  ticks : Nat
  /-- The reports made so far. -/
  journal : Array (Entry τ)

namespace Machine

variable {τ : Type}

/-- A machine that has not started. -/
def new (program : List UInt8) (config : Config τ) (threshold : Level) : Machine τ where
  program := program
  config := config
  threshold := threshold
  phase := .booting
  sampled := Keypad.none
  previous := none
  cycles := 0
  ticks := 0
  journal := #[]

/-- Where a machine is in its life. -/
def status (m : Machine τ) : Status :=
  match m.phase with
  | .booting => .booting
  | .running .. => .running
  | .halted .. => .halted

/-- The state, unless the machine never started. -/
def state? (m : Machine τ) : Option State :=
  match m.phase with
  | .booting => none
  | .running state _ _ => some state
  | .halted last _ => last

/-- Whether the machine runs and no stop was requested. -/
def goesOn (m : Machine τ) : Bool :=
  match m.phase with
  | .running _ _ goesOn => goesOn
  | _ => false

/-- The error that ended the machine. -/
def error? (m : Machine τ) : Option Failure :=
  match m.phase with
  | .halted _ error => error
  | _ => none

/-- Change the state, if there is one. -/
def mapState (f : State → State) (m : Machine τ) : Machine τ :=
  match m.phase with
  | .booting => m
  | .running state startedAt goesOn => { m with phase := .running (f state) startedAt goesOn }
  | .halted last error => { m with phase := .halted (last.map f) error }

/-- Request that the machine stops. -/
def stop (m : Machine τ) : Machine τ :=
  match m.phase with
  | .running state startedAt _ => { m with phase := .running state startedAt false }
  | _ => m

/-- The picture, unless the machine never started. -/
def picture? (m : Machine τ) : Option Screen := m.state?.map (·.display)

/-- Take over the keys that are held. The keypad of the state is written only when they differ
from the keys sampled last. -/
def sample (pressed : List Int) (m : Machine τ) : Machine τ :=
  let keys := Keypad.ofKeys pressed
  if keys = m.sampled then m
  else { m.mapState (fun s => { s with keypad := keys }) with sampled := keys }

/-- The report of the instruction that was executed last. -/
def lastStep? (m : Machine τ) : Option (Report τ) :=
  match m.previous, m.state? with
  | some i, some s => some (.traced m.cycles i s.pc.toNat)
  | _, _ => none

/-- Enter a state that an instruction led to. -/
def commit (i : Instruction) (after : State) (m : Machine τ) : Machine τ :=
  { m.mapState (fun _ => after) with previous := some i, cycles := m.cycles + 1 }

end Machine

/-! ## Hosts -/

/-- What an observer can do. -/
inductive Action (ω : Type) where
  /-- Change the world. -/
  | affect (f : ω → ω)
  /-- Request that the machine stops. -/
  | stop
  /-- Halt the machine, with an error or without. -/
  | halt (error : Option Failure)
  /-- Report the instruction that was executed last. -/
  | trace

/-- An observer: it sees the machine after an instruction, and the world; it answers with
actions, and may fail after them. -/
abbrev Observer (ω τ : Type) :=
  Machine τ → Instruction → ω → List (Action ω) × Option Failure

/-- The world as a machine sees it. -/
structure Host (ω τ : Type) where
  /-- The clock of the scheduler; reading it may change the world. -/
  clock : ω → τ × ω
  /-- The clock of the log. -/
  stamp : ω → τ
  /-- The codes of the keys that are held. -/
  pressedKeys : ω → List Int
  /-- Hand a picture over. -/
  draw : Screen → ω → ω × Option Failure
  /-- Let some time pass; the answer tells whether the machine should stop. -/
  sleep : τ → ω → ω × Except Failure Bool
  /-- What is told of every executed instruction. -/
  observer : Observer ω τ

/-- A machine in its world. -/
structure Rig (ω τ : Type) where
  machine : Machine τ
  world : ω

namespace Rig

variable {ω τ : Type} [OfNat τ 0] [OfNat τ 1] [OfNat τ 4] [Add τ] [Sub τ] [Mul τ] [Div τ]
  [LE τ] [DecidableLE τ] [LT τ] [DecidableLT τ] [HasRates τ]

/-- Put a report into the journal, unless it lies below the threshold. -/
def record (host : Host ω τ) (r : Report τ) (s : Rig ω τ) : Rig ω τ :=
  if s.machine.threshold.rank ≤ r.level.rank then
    { s with
      machine := { s.machine with journal := s.machine.journal.push ⟨host.stamp s.world, r⟩ } }
  else s

/-- Read the clock. -/
def readClock (host : Host ω τ) (s : Rig ω τ) : τ × Rig ω τ :=
  let (now, world) := host.clock s.world
  (now, { s with world := world })

/-- Report the end of a machine that has just halted. -/
def reportEnd (host : Host ω τ) (error : Option Failure) (elapsed : τ) (s : Rig ω τ) :
    Rig ω τ :=
  match error with
  | some e =>
    (s.record host (.crashed e.kind e.message s.machine.state?)).record host
      (.halted "crashed" s.machine.cycles elapsed)
  | none => s.record host (.halted "stopped" s.machine.cycles elapsed)

/-- Halt for good, with an error or without; a halted machine stays as it is. -/
def halt (host : Host ω τ) (error : Option Failure) (s : Rig ω τ) : Rig ω τ :=
  match s.machine.phase with
  | .halted .. => s
  | .booting =>
    reportEnd host error 0 { s with machine := { s.machine with phase := .halted none error } }
  | .running state startedAt _ =>
    let (now, s) :=
      readClock host { s with machine := { s.machine with phase := .halted (some state) error } }
    reportEnd host error (now - startedAt) s

/-- Load font and program and start to run; a running machine starts again. A machine whose rates
cannot be reported has started all the same. -/
def boot (host : Host ω τ) (s : Rig ω τ) : Rig ω τ × Option Failure :=
  match s.machine.phase with
  | .halted .. => (s, some (.fault (.halted .boot)))
  | _ =>
    let config := s.machine.config
    if Random.isSeed config.seed then
      match (State.initial (Random.ofSeed config.seed)).loadProgram s.machine.program with
      | .error f => (s, some (.fault f))
      | .ok state =>
        let (now, s) := s.readClock host
        let s := { s with machine := { s.machine with phase := .running state now true } }
        if config.hasRates then
          (s.record host (.booted s.machine.program.length config.instructionRate
            config.timerRate), none)
        else (s, some .rateTooLarge)
    else (s, some (.seedOutOfRange config.seed))

/-- Start a machine that has not started; refuse a halted one. -/
def ready (host : Host ω τ) (s : Rig ω τ) : Rig ω τ × Option Failure :=
  match s.machine.phase with
  | .halted .. => (s, some (.fault (.halted .work)))
  | .booting => s.boot host
  | .running .. => (s, none)

/-- Carry out an action of an observer. -/
def act (host : Host ω τ) (s : Rig ω τ) : Action ω → Rig ω τ
  | .affect f => { s with world := f s.world }
  | .stop => { s with machine := s.machine.stop }
  | .halt error => s.halt host error
  | .trace =>
    match s.machine.lastStep? with
    | some report => s.record host report
    | none => s

/-- Tell the observer of an executed instruction and carry out its actions. -/
def notify (host : Host ω τ) (i : Instruction) (s : Rig ω τ) :
    Rig ω τ × Option Failure :=
  let (actions, failure) := host.observer s.machine i s.world
  (actions.foldl (act host) s, failure)

/-- Sample the keys, fetch one instruction and carry it out. A fault leaves the state as the
sampling left it and halts the machine. -/
def cycle (host : Host ω τ) (s : Rig ω τ) : Rig ω τ × Option Failure :=
  match s.ready host with
  | (s, some failure) => (s, some failure)
  | (s, none) =>
    let s := { s with machine := s.machine.sample (host.pressedKeys s.world) }
    match s.machine.state? with
    | none => (s, none)
    | some state =>
      match state.step with
      | .error f => (s.halt host (some (.fault f)), some (.fault f))
      | .ok (after, word) =>
        notify host ⟨word⟩ { s with machine := s.machine.commit ⟨word⟩ after }

/-- Lower the timers and count the tick, then hand the picture over. -/
def lower (host : Host ω τ) (s : Rig ω τ) : Rig ω τ × Option Failure :=
  let machine :=
    { s.machine.mapState State.tick with ticks := s.machine.ticks + 1 }
  match machine.picture? with
  | none => ({ s with machine := machine }, none)
  | some picture =>
    let (world, failure) := host.draw picture s.world
    (⟨machine, world⟩, failure)

/-- One timer tick. -/
def tick (host : Host ω τ) (s : Rig ω τ) : Rig ω τ × Option Failure :=
  match s.ready host with
  | (s, some failure) => (s, some failure)
  | (s, none) => s.lower host

/-- A number of cycles, ended by the first failure. -/
def cycleTimes (host : Host ω τ) : Nat → Rig ω τ → Rig ω τ × Option Failure
  | 0, s => (s, none)
  | n + 1, s =>
    match s.cycle host with
    | (s, some failure) => (s, some failure)
    | (s, none) => cycleTimes host n s

end Rig

end Chip8
