/-
Chip8.CommandLine.Arguments — the arguments of the command line: at most
one program file, and options.

An argument that starts with a dash is an option unless it is a lone dash,
reads as a negative number, or holds a blank. The only option asks for
help. Its long form may be shortened and its short form may be repeated
behind one dash; whatever else follows it is a value that it cannot take.
A double dash ends the options. The first
argument that is no option names the file; every other argument that is
not understood is reported, all of them in order.
-/
import Chip8.Text.Digit
import Chip8.Text.Quoted

namespace Chip8.CommandLine

/-- What one argument is. -/
inductive Argument where
  /-- A value. -/
  | value (text : String)
  /-- The double dash that ends the options. -/
  | separator
  /-- The request for help. -/
  | help
  /-- A request for help that carries a value. -/
  | helpWith (text : String)
  /-- An option that does not exist. -/
  | unknown (text : String)
deriving DecidableEq, Repr

/-- A text without the line feed at its end. -/
def dropFinalNewline (cs : List Char) : List Char :=
  if cs.getLast? = some '\n' then cs.dropLast else cs

/-- Whether a text is a dash and a number: digits of any script, or a point with digits behind
it. A line feed may follow the number. -/
def isNegativeNumber (cs : List Char) : Bool :=
  match dropFinalNewline cs with
  | '-' :: body =>
    let whole := body.takeWhile Text.isDecimalDigit
    match body.dropWhile Text.isDecimalDigit with
    | [] => !whole.isEmpty
    | '.' :: places => !places.isEmpty && places.all Text.isDecimalDigit
    | _ => false
  | _ => false

/-- What a request for help in its short form is, by the letters behind it: the letter may be
repeated, and the rest is a value. -/
def shortHelp : List Char → Argument
  | [] => .help
  | 'h' :: rest => shortHelp rest
  | rest => .helpWith (String.ofList rest)

/-- What an argument in front of any double dash is. -/
def classify (text : String) : Argument :=
  let cs := text.toList
  let name := cs.takeWhile (· != '=')
  let value := (cs.dropWhile (· != '=')).drop 1
  let hasValue := cs.contains '='
  match cs with
  | ['-'] => .value text
  | '-' :: '-' :: rest =>
    if rest.isEmpty then .separator
    else if name.isPrefixOf "--help".toList then
      if hasValue then .helpWith (String.ofList value) else .help
    else if cs.contains ' ' then .value text
    else .unknown text
  | ['-', 'h', '='] => .helpWith ""
  | '-' :: 'h' :: '=' :: rest => shortHelp rest
  | '-' :: 'h' :: rest => shortHelp rest
  | '-' :: _ =>
    if isNegativeNumber cs || cs.contains ' ' then .value text else .unknown text
  | _ => .value text

/-- What the arguments are, one by one; behind a double dash every argument is a value. -/
def classifyAll : List String → List Argument
  | [] => []
  | text :: rest =>
    match classify text with
    | .separator => .separator :: rest.map .value
    | argument => argument :: classifyAll rest

/-- An argument as it was given. -/
def Argument.text : Argument → String
  | .value text => text
  | .separator => "--"
  | .help => "--help"
  | .helpWith text => text
  | .unknown text => text

/-- The value that names the file, and the arguments left over. A double dash next to the value,
or in front of it, belongs to it. -/
def takeFile : List Argument → Option String × List String
  | [] => (none, [])
  | .value text :: .separator :: rest => (some text, rest.map Argument.text)
  | .value text :: rest => (some text, rest.map Argument.text)
  | .separator :: .value text :: rest => (some text, rest.map Argument.text)
  | .separator :: rest => (none, rest.map Argument.text)
  | argument :: rest =>
    let (file, extras) := takeFile rest
    (file, argument.text :: extras)

/-- What a command line asks for. -/
inductive Request where
  /-- Run the program in a file; none stands for the bundled program. -/
  | run (file : Option String)
  | help
  /-- The arguments are wrong, for the reason given. -/
  | misuse (reason : String)
deriving DecidableEq, Repr

/-- The first request for help among the arguments. -/
def helpIn? : List Argument → Option Request
  | [] => none
  | .help :: _ => some .help
  | .helpWith text :: _ =>
    some (.misuse ("argument -h/--help: ignored explicit argument " ++ Text.quoted text))
  | _ :: rest => helpIn? rest

/-- What the arguments ask for: help comes first, then arguments that are not understood; an
empty file name stands for the bundled program. -/
def Request.ofArguments (texts : List String) : Request :=
  let arguments := classifyAll texts
  match helpIn? arguments with
  | some request => request
  | none =>
    match takeFile arguments with
    | (file, []) => .run (file.filter (· != ""))
    | (_, extras) => .misuse ("unrecognized arguments: " ++ " ".intercalate extras)

end Chip8.CommandLine
