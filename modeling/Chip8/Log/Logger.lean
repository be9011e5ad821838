/-
Chip8.Log.Logger — lines for a console: an optional time stamp, the level,
the name of the source and the message.

Stamps count seconds since the logger was made, with two places in a
column of eight. The level stands in a column of eight as well, coloured
if colours are wanted and the console is a terminal. A line below the
logger's level is not written. Times are numbers as they are given;
`Chip8.Log.Checked` has the same lines for times that may be too large to
be written.
-/
import Chip8.Log.Report
import Chip8.Text.Quoted

namespace Chip8

/-- What may be wrong with a level given as text. -/
inductive LevelError where
  /-- No logger can be set to this level. -/
  | unknown (text : String)
  /-- The text names no level. -/
  | unlisted
  /-- There is no colour for this level. -/
  | colorless (text : String)
deriving DecidableEq, Repr

/-- A writer of log lines. -/
structure Logger where
  name : String
  level : Level
  colors : Bool
  timestamps : Bool
  /-- The time at which the logger was made. -/
  created : Number

/-- What a logger can be told when it is made. -/
structure LoggerOptions where
  name : String
  level : String := "INFO"
  colors : Bool := true
  timestamps : Bool := true

namespace LoggerOptions

/-- The settings of a console logger. -/
def console : LoggerOptions := { name := "octavm" }

/-- The settings of a machine's logger. -/
def machine : LoggerOptions := { name := "Machine" }

/-- The settings of a window's logger. -/
def window : LoggerOptions := { name := "Window" }

end LoggerOptions

namespace Logger

/-- A logger with given settings. -/
def ofOptions (o : LoggerOptions) (isTerminal : Bool) (now : Number) : Except LevelError Logger :=
  match Level.parse? o.level with
  | some level => .ok ⟨o.name, level, o.colors && isTerminal, o.timestamps, now⟩
  | none => .error (.unknown o.level)

/-- Whether lines of a level are written. -/
def writes (l : Logger) (level : Level) : Bool := l.level.rank ≤ level.rank

/-- Whether lines of the level with a name are written. -/
def writesNamed (l : Logger) (text : String) : Except LevelError Bool :=
  match Level.named? text with
  | some level => .ok (l.writes level)
  | none => .error .unlisted

/-- The time stamp at the front of a line. -/
def stamp (l : Logger) (now : Number) : String :=
  if l.timestamps then
    "[" ++ Text.padLeft 8 ' ' (Text.Binary64.fixed 2 (now - l.created).toFloat) ++ "s]"
  else ""

/-- The column of a level. -/
def tag (text : String) : String := "[" ++ Text.padLeft 8 ' ' text ++ "]"

/-- The name of the source and the message. -/
def body (l : Logger) (message : String) : String := "[" ++ l.name ++ "] " ++ message

/-- The line of a message. -/
def line (l : Logger) (now : Number) (level : Level) (message : String) : String :=
  let tag := if l.colors then level.color ++ tag level.name ++ "\x1b[0m" else tag level.name
  l.stamp now ++ tag ++ l.body message

/-- The line of a message whose level is given as text; a text that names no level has no
colour. -/
def format (l : Logger) (now : Number) (text message : String) : Except LevelError String :=
  match Level.named? text with
  | some level => .ok (l.line now level message)
  | none =>
    if l.colors then .error (.colorless text) else .ok (l.stamp now ++ tag text ++ l.body message)

/-- The line to write for a message: none if its level is not written. -/
def log (l : Logger) (now : Number) (level : Level) (message : String) : List String :=
  if l.writes level then [l.line now level message] else []

/-- The lines to write for a report. -/
def report (l : Logger) (now : Number) (r : Report Number) : List String :=
  r.lines.flatMap (l.log now r.level)

end Logger

end Chip8
