/-
Chip8.Keypad — the sixteen keys 0 to F, each held down or not.

A `Keypad` answers `holds k` for every integer `k`; codes outside 0 to 15
name no key, so they are never held and pressing or releasing them
changes nothing.
-/
namespace Chip8

/-- Which of the sixteen keys are held down. -/
structure Keypad where
  held : Vector Bool 16
deriving DecidableEq

namespace Keypad

/-- The keypad on which the keys that satisfy `f` are held down. -/
def ofFn (f : Fin 16 → Bool) : Keypad := ⟨Vector.ofFn f⟩

/-- Whether a key is held down. -/
def get (p : Keypad) (k : Fin 16) : Bool := p.held[k]

@[simp] theorem get_ofFn (f : Fin 16 → Bool) (k : Fin 16) : (ofFn f).get k = f k := by
  simp [ofFn, get]

/-- Keypads that agree on every key are equal. -/
theorem ext {p q : Keypad} (h : ∀ k, p.get k = q.get k) : p = q := by
  obtain ⟨p⟩ := p
  obtain ⟨q⟩ := q
  congr 1
  apply Vector.ext
  intro k hk
  exact h ⟨k, hk⟩

/-- No key is held down. -/
def none : Keypad := ofFn fun _ => false

/-- The keypad on which exactly the listed keys are held; codes that name no key are passed over. -/
def ofKeys (keys : List Int) : Keypad := ofFn fun k => keys.contains (k.val : Int)

/-- Whether the key with a code is held; false for a code that names no key. -/
def holds (p : Keypad) (code : Int) : Bool :=
  if h : 0 ≤ code ∧ code < 16 then p.get ⟨code.toNat, by omega⟩ else false

/-- Hold a key down. -/
def press (p : Keypad) (code : Int) : Keypad :=
  ofFn fun k => p.get k || (k.val : Int) == code

/-- Let go of a key. -/
def release (p : Keypad) (code : Int) : Keypad :=
  ofFn fun k => p.get k && (k.val : Int) != code

/-- The held keys in ascending order. -/
def keys (p : Keypad) : List (Fin 16) := (List.finRange 16).filter p.get

/-- The lowest held key. -/
def lowest? (p : Keypad) : Option (Fin 16) := (List.finRange 16).find? p.get

@[simp] theorem get_none (k : Fin 16) : none.get k = false := by
  simp [none]

@[simp] theorem get_ofKeys (keys : List Int) (k : Fin 16) :
    (ofKeys keys).get k = keys.contains (k.val : Int) := by
  simp [ofKeys]

@[simp] theorem get_press (p : Keypad) (code : Int) (k : Fin 16) :
    (p.press code).get k = (p.get k || (k.val : Int) == code) := by
  simp [press]

@[simp] theorem get_release (p : Keypad) (code : Int) (k : Fin 16) :
    (p.release code).get k = (p.get k && (k.val : Int) != code) := by
  simp [release]

/-- A key is listed exactly if it is held. -/
@[simp] theorem mem_keys (p : Keypad) (k : Fin 16) : k ∈ p.keys ↔ p.get k = true := by
  simp [keys]

end Keypad

end Chip8
