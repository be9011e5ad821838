/-
Chip8.Log.Level — how grave a log line is.

Levels are named in upper case. A name may be given in any case:
`Level.parse?` takes the upper-case form of a text first, and
`Level.named?` takes the name as it stands.
-/
namespace Chip8

/-- The grade of a log line. -/
inductive Level where
  | debug
  | info
  | warning
  | error
  | critical
deriving DecidableEq, Repr

namespace Level

/-- All levels, the least grave first. -/
def all : List Level := [.debug, .info, .warning, .error, .critical]

/-- The place of a level in that order. -/
def rank : Level → Nat
  | .debug => 0
  | .info => 1
  | .warning => 2
  | .error => 3
  | .critical => 4

/-- The name of a level. -/
def name : Level → String
  | .debug => "DEBUG"
  | .info => "INFO"
  | .warning => "WARNING"
  | .error => "ERROR"
  | .critical => "CRITICAL"

/-- The level with a name. -/
def named? (s : String) : Option Level := all.find? fun l => l.name == s

/-- The upper-case form of a character, as far as it is one letter of ASCII: next to the
lower-case letters of ASCII these are the dotless i and the long s. -/
def upperChar (c : Char) : Char :=
  if c = 'ı' then 'I' else if c = 'ſ' then 'S' else c.toUpper

/-- The level whose name is the upper-case form of a text. No name can arise from the
characters whose upper-case form is longer than one letter: none contains the pairs that those
produce. -/
def parse? (s : String) : Option Level :=
  named? (String.ofList (s.toList.map upperChar))

/-- The escape sequence that starts the colour of a level on a terminal. -/
def color : Level → String
  | .debug => "\x1b[36m"
  | .info => "\x1b[32m"
  | .warning => "\x1b[33m"
  | .error => "\x1b[31m"
  | .critical => "\x1b[35m"

/-- Naming a level and looking its name up are inverse. -/
theorem named?_name (l : Level) : named? l.name = some l := by
  cases l <;> decide

end Level

end Chip8
