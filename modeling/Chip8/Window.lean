/-
Chip8.Window — a window that shows published pictures and follows the hex
keys of a keyboard.

The window and its machine share only the keypad and the latest picture.
`Window.present` runs the window beside a machine: as long as the machine's
thread is alive it applies the waiting events in order and paints the
latest picture. An event that closes the window ends the showing at once,
without the events behind it and without painting. So does a failure, of
the window itself or from outside (`Trouble`). However the showing ends,
the machine is asked to stop and its thread is awaited.

`Window.runAmid` opens the window first, on a `Display` that may refuse its
size or its title; `Window.run` does so with nothing failing around the
window.
-/
import Chip8.Keypad
import Chip8.Render

namespace Chip8

/-- What happens at a keyboard or to a window; keys are named by their codes. -/
inductive Event where
  | keyDown (code : Int)
  | keyUp (code : Int)
  | quit
  | other
deriving DecidableEq, Repr

/-- The codes of the hex keys: the digits 0 to 9 and the lower-case letters a to f. -/
def keyMap : List (Int × Int) :=
  [(48, 0), (49, 1), (50, 2), (51, 3), (52, 4), (53, 5), (54, 6), (55, 7), (56, 8), (57, 9),
   (97, 10), (98, 11), (99, 12), (100, 13), (101, 14), (102, 15)]

/-- The code of the key that closes the window. -/
def escapeCode : Int := 27

/-- A window. -/
structure Window where
  scale : Int
  palette : Palette
  title : String
  keys : Keypad
  frames : FrameBuffer

/-- What a window can be told when it is made. -/
structure WindowOptions where
  scale : Int := 10
  scheme : String := "classic"
  title : String := "CHIP-8"

namespace Window

/-- A window with given settings. -/
def ofOptions (o : WindowOptions) : Except Palette.UnknownName Window :=
  (Palette.find o.scheme).map fun palette =>
    { scale := o.scale, palette := palette, title := o.title, keys := Keypad.none,
      frames := FrameBuffer.empty }

/-- Apply an event to the keys; keys without a hex digit change nothing. -/
def handleKeys (keys : Keypad) : Event → Keypad
  | .keyDown code =>
    match keyMap.lookup code with
    | some key => keys.press key
    | none => keys
  | .keyUp code =>
    match keyMap.lookup code with
    | some key => keys.release key
    | none => keys
  | .quit | .other => keys

/-- Whether an event closes the window. -/
def closes : Event → Bool
  | .quit => true
  | .keyDown code => code == escapeCode
  | .keyUp _ | .other => false

/-- Apply an event; the answer tells whether the window stays open. -/
def handle (w : Window) (e : Event) : Window × Bool :=
  if closes e then (w, false) else ({ w with keys := handleKeys w.keys e }, true)

/-- Apply events in order up to the first that closes the window. -/
def handleAll (w : Window) : List Event → Window × Bool
  | [] => (w, true)
  | e :: rest =>
    match w.handle e with
    | (w, true) => handleAll w rest
    | (w, false) => (w, false)

/-- The image of the latest picture, columns first. -/
def render (w : Window) : Except RenderError Image :=
  renderColumns w.frames.latest w.scale w.palette

end Window

/-! ## Showing -/

/-- What happens at one look at the machine's thread while it is alive: the frames that it
publishes, and the events that wait afterwards. -/
structure Turn where
  frames : List Frame
  events : List Event

/-- What fails around a window in a turn. -/
structure Trouble (ε : Type) where
  /-- The look at the thread fails, once the frames are published. -/
  look : Option ε
  /-- The display fails to show the image. -/
  display : Option ε

/-- Nothing fails. -/
def Trouble.none {ε : Type} : Trouble ε := ⟨Option.none, Option.none⟩

/-- What a window asks of the machine. -/
inductive MachineCall where
  | start
  | stop
  | join
deriving DecidableEq, Repr

/-- The name of a call. -/
def MachineCall.name : MachineCall → String
  | .start => "start"
  | .stop => "stop"
  | .join => "join"

/-- What a window itself ends a showing with before its time. -/
inductive WindowError where
  | frame (e : FrameError)
  | render (e : RenderError)
deriving DecidableEq, Repr

/-- The sentence that describes what ended a showing. -/
def WindowError.message : WindowError → String
  | .frame e => e.message
  | .render e => e.message

/-- The course of a showing: the window at its end, the calls to the machine and the painted
images in order, and what the window ended it early with, if it did. Painted images have columns
first. -/
structure Showing where
  window : Window
  calls : List MachineCall
  painted : List Image
  failure : Option WindowError

/-! ## Displays -/

/-- What a window is opened on: it takes a window of some width and height in pixels, and then a
title, or refuses them for reasons of its own. -/
structure Display (δ : Type) where
  setMode : Int → Int → Except δ Unit
  setCaption : String → Except δ Unit

/-- Why the usual display refuses a window. -/
inductive OpenError where
  /-- A side is no signed word of 64 bits. -/
  | sizeOutOfRange
  | negativeSize
  | tooLarge
  /-- The title holds a null character. -/
  | nullInTitle
deriving DecidableEq, Repr

/-- The sentence that describes why a window cannot be opened. -/
def OpenError.message : OpenError → String
  | .sizeOutOfRange => "size must be two numbers"
  | .negativeSize => "Cannot set negative sized display mode"
  | .tooLarge => "Window is too large."
  | .nullInTitle => "embedded null character"

namespace Display

/-- The longest side that the usual display can show. -/
def sideLimit : Int := 16384

/-- The usual display. It takes sides for signed words of 32 bits, and they must fit it as such. -/
def usual : Display OpenError where
  setMode width height :=
    let shown := [width, height].map fun side => (Int32.ofInt side).toInt
    if [width, height].any fun side => !isLongWord side then .error .sizeOutOfRange
    else if shown.any fun side => side < 0 then .error .negativeSize
    else if shown.any fun side => sideLimit < side then .error .tooLarge
    else .ok ()
  setCaption title := if title.contains '\x00' then .error .nullInTitle else .ok ()

end Display

/-- What the window says when it opens. -/
def openingMessage : String := "Window open: hex keys 0-9 and A-F, ESC to quit"

namespace Window

/-- The turns of a showing, for a thread that is alive once for each of them. The second answer is
the failure from outside that ended them, if one did. -/
def turns {ε : Type} (w : Window) : List (Turn × Trouble ε) → Showing × Option ε
  | [] => (⟨w, [], [], none⟩, none)
  | (t, trouble) :: rest =>
    match w.frames.publishAll t.frames with
    | (frames, some e) => (⟨{ w with frames := frames }, [], [], some (.frame e)⟩, none)
    | (frames, none) =>
      match trouble.look with
      | some e => (⟨{ w with frames := frames }, [], [], none⟩, some e)
      | none =>
        match handleAll { w with frames := frames } t.events with
        | (w, false) => (⟨w, [.stop], [], none⟩, none)
        | (w, true) =>
          match w.render with
          | .error e => (⟨w, [], [], some (.render e)⟩, none)
          | .ok image =>
            match trouble.display with
            | some e => (⟨w, [], [], none⟩, some e)
            | none =>
              let (later, failure) := turns w rest
              ({ later with painted := image :: later.painted }, failure)

/-- Show the window beside a machine until it is closed, the machine's thread has ended, or
something fails. -/
def present {ε : Type} (w : Window) (ts : List (Turn × Trouble ε)) : Showing × Option ε :=
  let (course, failure) := w.turns ts
  ({ course with calls := .start :: course.calls ++ [.stop, .join] }, failure)

/-- Open the window: first its size is set, then its title. -/
def openOn {δ : Type} (d : Display δ) (w : Window) : Except δ Unit := do
  d.setMode (w.scale * Screen.width) (w.scale * Screen.height)
  d.setCaption w.title

/-- Open the window and show it; the machine is not started if the window cannot be opened. -/
def runAmid {δ ε : Type} (d : Display δ) (w : Window) (ts : List (Turn × Trouble ε)) :
    Except δ (Showing × Option ε) := do
  w.openOn d
  return w.present ts

/-- The same with nothing failing around the window. -/
def run {δ : Type} (d : Display δ) (w : Window) (ts : List Turn) : Except δ Showing :=
  (w.runAmid d (ts.map fun t => (t, (Trouble.none : Trouble Empty)))).map (·.1)

end Window

end Chip8
