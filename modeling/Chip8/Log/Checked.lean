/-
Chip8.Log.Checked — log lines whose numbers may be too large to be written.

A time stamp is a difference of two times, and a report holds numbers of
its own. If one of them cannot be computed nothing is written. A stamp is
looked at only for a line that is written and has one; the numbers of a
report are looked at whatever its level.
-/
import Chip8.Log.Logger

namespace Chip8

/-- Why a line cannot be written. -/
inductive LineError where
  | level (e : LevelError)
  | number (e : Number.Overflow)
deriving DecidableEq, Repr

namespace Logger

/-- Refuse a time whose stamp cannot be written. -/
def checkStamp (l : Logger) (now : Number) : Except Number.Overflow Unit := do
  if l.timestamps then discard (← now.difference l.created).nearest

/-- The line to write for a message: none if its level is not written. -/
def logChecked (l : Logger) (now : Number) (level : Level) (message : String) :
    Except LineError (List String) := do
  if l.writes level then (l.checkStamp now).mapError .number
  return l.log now level message

/-- The line to write for a message whose level is given as text, in any case. -/
def logNamedChecked (l : Logger) (now : Number) (text message : String) :
    Except LineError (List String) :=
  match Level.parse? text with
  | some level => l.logChecked now level message
  | none => .error (.level .unlisted)

/-- The line of a message whose level is given as text, as it is. -/
def formatChecked (l : Logger) (now : Number) (text message : String) :
    Except LineError String := do
  (l.checkStamp now).mapError .number
  (l.format now text message).mapError .level

/-- The lines to write for a report. -/
def reportChecked (l : Logger) (now : Number) (r : Report Number) :
    Except LineError (List String) := do
  r.check.mapError .number
  if l.writes r.level then (l.checkStamp now).mapError .number
  return l.report now r

end Logger

end Chip8
