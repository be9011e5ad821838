/-
Chip8.Machine.Headless — a machine without a window, for scripted runs.

A `Headless` adapter is a keypad and a frame buffer. `Host.headless` is
the host whose world is such an adapter beside anything else: its keys are
those of the adapter, and every picture goes to the frame buffer.
-/
import Chip8.Frame
import Chip8.Machine.Basic

namespace Chip8

/-- An adapter without a window. -/
structure Headless where
  keys : Keypad
  frames : FrameBuffer

namespace Headless

/-- An adapter on which the listed keys are held. -/
def new (keys : List Int) : Headless := ⟨Keypad.ofKeys keys, FrameBuffer.empty⟩

/-- The codes of the held keys. -/
def pressedKeys (h : Headless) : List Int := h.keys.keys.map fun k => (k.val : Int)

/-- Hand a picture over. -/
def receive (h : Headless) (s : Screen) : Headless := { h with frames := h.frames.receive s }

/-- Hand a frame of any shape over. -/
def draw (h : Headless) (f : Frame) : Except FrameError Headless :=
  (h.frames.publish f).map fun b => { h with frames := b }

end Headless

/-- The host of a headless machine, with given clocks, sleep and observer. -/
def Host.headless {κ τ : Type} (clock : κ → τ × κ) (stamp : κ → τ)
    (sleep : τ → κ → κ × Except Failure Bool) (observer : Observer (Headless × κ) τ) :
    Host (Headless × κ) τ where
  clock w := let (now, rest) := clock w.2; (now, (w.1, rest))
  stamp w := stamp w.2
  pressedKeys w := w.1.pressedKeys
  draw s w := ((w.1.receive s, w.2), none)
  sleep t w := let (rest, answer) := sleep t w.2; ((w.1, rest), answer)
  observer := observer

end Chip8
