/-
Chip8.Text.Quoted — a text in quotes, as error messages show it.

The text stands in single quotes, or in double quotes if it holds a
single quote and no double quote. The backslash and the quote in use are
escaped with a backslash, tab, line feed and carriage return have letter
escapes, and every other character that is not printable is written as
its code point in two, four or eight lower-case hexadecimal digits.
-/
import Chip8.Text.Numeral
import Chip8.Text.Printable

namespace Chip8.Text

/-- The quote character chosen for a text. -/
def quoteFor (cs : List Char) : Char :=
  if cs.contains '\'' && !cs.contains '"' then '"' else '\''

/-- A number in lower-case hexadecimal with at least `width` digits. -/
def lowerHex (width n : Nat) : List Char :=
  (padLeft width '0' (String.ofList ((digits 16 n).map digitChar))).toList.map Char.toLower

/-- One character of a quoted text. -/
def escape (quote c : Char) : List Char :=
  if c = '\\' || c = quote then ['\\', c]
  else if c = '\t' then ['\\', 't']
  else if c = '\n' then ['\\', 'n']
  else if c = '\r' then ['\\', 'r']
  else if isPrintable c then [c]
  else if c.toNat < 0x100 then '\\' :: 'x' :: lowerHex 2 c.toNat
  else if c.toNat < 0x10000 then '\\' :: 'u' :: lowerHex 4 c.toNat
  else '\\' :: 'U' :: lowerHex 8 c.toNat

/-- A text in quotes. -/
def quoted (s : String) : String :=
  let cs := s.toList
  let quote := quoteFor cs
  String.ofList (quote :: cs.flatMap (escape quote) ++ [quote])

end Chip8.Text
