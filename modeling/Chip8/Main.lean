/-
Chip8.Main — the command line: a program runs in the terminal.

The clock of the system drives the loop of the machine; every picture is
drawn with one character for a pixel. All decisions are made by
`CommandLine`, `Loop` and `Logger`.
-/
import Chip8.CommandLine.Session

namespace Chip8.CommandLine

/-- The world of a machine in a terminal: the time, and a picture that waits to be shown. -/
structure Terminal where
  now : Number
  picture : Option Screen
  sleep : Number

/-- The terminal as a host. It has no hex keys. -/
def Terminal.host : Host Terminal Number where
  clock t := (t.now, t)
  stamp t := t.now
  pressedKeys _ := []
  draw s t := ({ t with picture := some s }, none)
  sleep seconds t := ({ t with sleep := seconds }, .ok false)
  observer := Observer.silent

/-- The text of a picture. -/
def pictureText (s : Screen) : String :=
  "\n".intercalate (s.rows.map fun r =>
    String.ofList (r.map fun lit => if lit then '█' else ' '))

/-- The seconds that the clock of the system shows. -/
def clockSeconds : IO Number := do
  return .double ((← IO.monoNanosNow).toFloat / 1000000000)

/-- Print the entries of a journal from a place on. -/
def printEntries (logger : Logger) (m : Machine Number) (start : Nat) : IO Unit := do
  for e in m.journal.toList.drop start do
    for line in logger.report e.time e.report do
      IO.println line

/-- Run a machine in its loop until it ends. -/
partial def runLoop (logger : Logger) (l : Loop Terminal Number) : IO (Machine Number) := do
  let shown := l.rig.machine.journal.size
  let now ← clockSeconds
  let world : Terminal := ⟨now, none, 0⟩
  let l := { l with rig := ⟨l.rig.machine, world⟩ }
  if l.rig.machine.goesOn then
    let (l, failure) := l.iterate Terminal.host
    let rig := match failure with
      | some f => l.rig.halt Terminal.host (some f)
      | none => l.rig
    printEntries logger rig.machine shown
    if let some picture := l.rig.world.picture then
      IO.println (pictureText picture)
    IO.sleep (l.rig.world.sleep.toFloat * 1000).toUInt32
    runLoop logger { l with rig := rig }
  else
    let rig := l.rig.halt Terminal.host none
    printEntries logger rig.machine shown
    return rig.machine

/-- Read the program that was asked for. -/
def loadProgram : Option String → IO (List UInt8 × String)
  | some file => do return ((← IO.FS.readBinFile file).toList, file)
  | none => return (bundledProgram, "bundled default ROM")

/-- Run a program; the exit code tells whether its machine recorded an error. -/
def runProgram (file : Option String) : IO UInt32 := do
  let (program, title) ← loadProgram file
  let now ← clockSeconds
  for line in (plainLogger .console now).log now .info ("Loaded: " ++ title) do
    IO.println line
  let logger := plainLogger .machine now
  let world : Terminal := ⟨now, none, 0⟩
  let rig : Rig Terminal Number := ⟨Machine.new program Config.standard .info, world⟩
  let (rig, failure) := Rig.ready Terminal.host rig
  printEntries logger rig.machine 0
  if failure.isSome then return 0
  let machine ← runLoop logger (rig.enterLoop Terminal.host)
  return if machine.error?.isSome then 1 else 0

end Chip8.CommandLine

/-- The command line. -/
def main (arguments : List String) : IO UInt32 := do
  match Chip8.CommandLine.Request.ofArguments arguments with
  | .help =>
    for line in Chip8.CommandLine.helpLines do
      IO.println line
    return 0
  | .misuse reason =>
    for line in Chip8.CommandLine.misuseLines reason do
      IO.eprintln line
    return 2
  | .run file => Chip8.CommandLine.runProgram file
