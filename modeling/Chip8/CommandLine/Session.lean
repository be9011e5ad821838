/-
Chip8.CommandLine.Session — one use of the command line from its
arguments to its exit code.

The arguments are read first; a wrong command line ends with code 2 and
prints how it is used. Then the program is read and a machine is made for
it and handed to whoever shows it. The exit code is 1 if the machine
recorded an error and 0 if not.
-/
import Chip8.CommandLine.Arguments
import Chip8.CommandLine.Directory
import Chip8.Log.Logger
import Chip8.Machine.Run

namespace Chip8.CommandLine

/-- How a use of the command line ended. -/
inductive Ending where
  | exit (code : Nat)
  | failed (e : FileError)
deriving DecidableEq, Repr

/-- A use of the command line: how it ended, and the lines that it printed. -/
structure Session where
  ending : Ending
  output : List String
  errors : List String
deriving DecidableEq, Repr

/-- How the command is used. -/
def usage : String := "usage: octavm [-h] [rom]"

/-- The answer to a request for help. -/
def helpLines : List String :=
  [usage, "", "CHIP-8 virtual machine", "", "positional arguments:",
   "  rom         ROM file to run (default: bundled demo)", "", "options:",
   "  -h, --help  show this help message and exit"]

/-- The answer to wrong arguments. -/
def misuseLines (reason : String) : List String := [usage, "octavm: error: " ++ reason]

/-- The program that was asked for, and how the log calls it. -/
def fetchProgram (read : String → Except FileError (List UInt8)) :
    Option String → Except FileError (List UInt8 × String)
  | some file => (read file).map fun program => (program, file)
  | none => .ok (bundledProgram, "bundled default ROM")

/-- The logger with given settings on a console that is no terminal. -/
def plainLogger (o : LoggerOptions) (now : Number) : Logger :=
  { name := o.name, level := .info, colors := false, timestamps := o.timestamps, created := now }

/-- The lines of the reports that a machine made. -/
def journalLines (logger : Logger) (m : Machine Number) : List String :=
  m.journal.toList.flatMap fun e => logger.report e.time e.report

/-- Use the command line: `read` reads a file, and `present` shows a machine until its end. -/
def Session.ofArguments (read : String → Except FileError (List UInt8))
    (present : Machine Number → Machine Number) (now : Number) (arguments : List String) :
    Session :=
  match Request.ofArguments arguments with
  | .help => ⟨.exit 0, helpLines, []⟩
  | .misuse reason => ⟨.exit 2, [], misuseLines reason⟩
  | .run file =>
    match fetchProgram read file with
    | .error e => ⟨.failed e, [], []⟩
    | .ok (program, title) =>
      let loaded := (plainLogger .console now).log now .info ("Loaded: " ++ title)
      let machine := present (Machine.new program Config.standard .info)
      let code := if machine.error?.isSome then 1 else 0
      ⟨.exit code, loaded ++ journalLines (plainLogger .machine now) machine, []⟩

end Chip8.CommandLine
