/-
Chip8.Proofs.PressedKeys — the last change that concerns a key decides
whether it is held.

The keys of a window change by calls and by events (`KeyChange`). A press
or a release concerns one key, also when it comes from a keyboard, whose
keys `keyboardCode` numbers; a new set of keys concerns all of them, and so
does clearing. `Window.get_change` says what one change does to one key: a
change that concerns the key decides about it, and any other leaves it as
it was. Of a sequence of changes only the last one that concerns the key is
left (`Window.get_changes`).

Codes that name no key concern none, so they change nothing, neither alone
nor in a set, and the same holds for the keys of a keyboard that show no
hex digit.
-/
import Mathlib.Data.List.Induction
import Chip8.Window

namespace Chip8

/-! ## Codes of keys -/

namespace Keypad

/-- A code that names a key. -/
def IsCode (code : Int) : Prop := 0 ≤ code ∧ code ≤ 15

instance : DecidablePred IsCode := fun code =>
  inferInstanceAs (Decidable (0 ≤ code ∧ code ≤ 15))

theorem isCode_val (k : Fin 16) : IsCode k.val := by
  have hlt := k.isLt
  unfold IsCode
  omega

theorem exists_key {code : Int} (h : IsCode code) : ∃ k : Fin 16, (k.val : Int) = code :=
  ⟨⟨code.toNat, by unfold IsCode at h; omega⟩, Int.toNat_of_nonneg h.1⟩

/-- The codes of the held keys, in ascending order. -/
def snapshot (p : Keypad) : List Int := p.keys.map fun k => (k.val : Int)

theorem mem_snapshot_iff (p : Keypad) (code : Int) :
    code ∈ p.snapshot ↔ ∃ k : Fin 16, (k.val : Int) = code ∧ p.get k = true := by
  simp only [snapshot, List.mem_map, mem_keys, and_comm]

/-- A press decides about one key. -/
theorem get_press_eq_ite (p : Keypad) (code : Int) (k : Fin 16) :
    (p.press code).get k = if code == k.val then true else p.get k := by
  rw [get_press, Bool.beq_comm]
  cases code == (k.val : Int) with
  | true => exact Bool.or_true _
  | false => exact Bool.or_false _

/-- So does a release. -/
theorem get_release_eq_ite (p : Keypad) (code : Int) (k : Fin 16) :
    (p.release code).get k = if code == k.val then false else p.get k := by
  rw [get_release, bne, Bool.beq_comm]
  cases code == (k.val : Int) with
  | true => exact Bool.and_false _
  | false => exact Bool.and_true _

end Keypad

/-! ## Keyboards -/

/-- The code of the key that shows a hex digit. -/
def keyboardCode (k : Int) : Int := if k < 10 then 48 + k else 87 + k

/-- A keyboard's keys with a hex digit are looked at for this digit, and no others are. -/
theorem lookup_keyMap_eq_some_iff (code k : Int) :
    keyMap.lookup code = some k ↔ Keypad.IsCode k ∧ code = keyboardCode k := by
  have hlisted : ∀ p ∈ keyMap, Keypad.IsCode p.2 ∧ p.1 = keyboardCode p.2 := by decide
  have hall : ∀ j : Fin 16, keyMap.lookup (keyboardCode j.val) = some (j.val : Int) := by decide
  constructor
  · intro h
    obtain ⟨before, after, heq, -⟩ := List.lookup_eq_some_iff.mp h
    exact hlisted (code, k) (heq ▸ List.mem_append_right before List.mem_cons_self)
  · rintro ⟨hcode, rfl⟩
    obtain ⟨j, rfl⟩ := Keypad.exists_key hcode
    exact hall j

/-- For a key the table and the numbering say the same. -/
theorem beq_keyboardCode (code : Int) (k : Fin 16) :
    (code == keyboardCode k.val) = (keyMap.lookup code == some (k.val : Int)) := by
  rw [Bool.eq_iff_iff, beq_iff_eq, beq_iff_eq, lookup_keyMap_eq_some_iff]
  exact (and_iff_right (Keypad.isCode_val k)).symm

/-! ## Changes -/

/-- A change of the keys of a window: a call, or an event at its keyboard. -/
inductive KeyChange where
  | press (code : Int)
  | release (code : Int)
  | set (codes : List Int)
  | clear
  | event (e : Event)

namespace KeyChange

/-- Whether a change decides about a key. -/
def concerns (k : Int) : KeyChange → Bool
  | .press code => code == k
  | .release code => code == k
  | .set _ => true
  | .clear => true
  | .event (.keyDown code) => code == keyboardCode k
  | .event (.keyUp code) => code == keyboardCode k
  | .event .quit => false
  | .event .other => false

/-- Whether a key that a change decides about is held after it. -/
def holds (k : Int) : KeyChange → Bool
  | .press _ => true
  | .release _ => false
  | .set codes => codes.contains k
  | .clear => false
  | .event (.keyDown _) => true
  | .event (.keyUp _) => false
  | .event .quit => false
  | .event .other => false

/-- The last change that decides about a key, if any does. -/
def last? (k : Int) (changes : List KeyChange) : Option KeyChange :=
  changes.reverse.find? (concerns k)

theorem last?_concat (k : Int) (changes : List KeyChange) (c : KeyChange) :
    last? k (changes ++ [c]) = if c.concerns k then some c else last? k changes := by
  rw [last?, List.reverse_append, List.reverse_singleton, List.singleton_append, List.find?_cons]
  cases c.concerns k with
  | true => rfl
  | false => rfl

end KeyChange

namespace Window

variable (w : Window)

/-- The window after a change of its keys. -/
def change (w : Window) : KeyChange → Window
  | .press code => { w with keys := w.keys.press code }
  | .release code => { w with keys := w.keys.release code }
  | .set codes => { w with keys := Keypad.ofKeys codes }
  | .clear => { w with keys := Keypad.none }
  | .event e => (w.handle e).1

/-- The keys after an event; those that close the window are no exception, for the escape key shows
no hex digit. -/
theorem change_event (e : Event) :
    w.change (.event e) = { w with keys := handleKeys w.keys e } := by
  rw [change, handle]
  by_cases hcloses : closes e = true
  · rw [if_pos hcloses]
    cases e with
    | keyDown code =>
      obtain rfl : code = escapeCode := by simpa [closes] using hcloses
      rfl
    | quit => rfl
    | keyUp code => cases hcloses
    | other => cases hcloses
  · rw [if_neg hcloses]

/-- A change of the keys changes nothing else. -/
theorem change_frame (c : KeyChange) : w.change c = { w with keys := (w.change c).keys } := by
  cases c with
  | event e => rw [change_event]
  | press code | release code | set codes | clear => rfl

variable (c : KeyChange) (k : Fin 16)

theorem get_handleKeys_keyDown (p : Keypad) (code : Int) :
    (handleKeys p (.keyDown code)).get k =
      if code == keyboardCode k.val then true else p.get k := by
  rw [beq_keyboardCode, handleKeys]
  cases keyMap.lookup code with
  | none => rfl
  | some key => exact p.get_press_eq_ite key k

theorem get_handleKeys_keyUp (p : Keypad) (code : Int) :
    (handleKeys p (.keyUp code)).get k =
      if code == keyboardCode k.val then false else p.get k := by
  rw [beq_keyboardCode, handleKeys]
  cases keyMap.lookup code with
  | none => rfl
  | some key => exact p.get_release_eq_ite key k

/-- **One change of one key**: a change that concerns the key decides about it, any other leaves it
as it was. -/
theorem get_change :
    (w.change c).keys.get k = if c.concerns k.val then c.holds k.val else w.keys.get k := by
  cases c with
  | press code => exact w.keys.get_press_eq_ite code k
  | release code => exact w.keys.get_release_eq_ite code k
  | set codes => exact Keypad.get_ofKeys codes k
  | clear => exact Keypad.get_none k
  | event e =>
    rw [change_event]
    cases e with
    | keyDown code => exact get_handleKeys_keyDown k w.keys code
    | keyUp code => exact get_handleKeys_keyUp k w.keys code
    | quit => rfl
    | other => rfl

/-- A window after a change is known by its keys, one by one. -/
theorem change_eq_of_get {v : Window} (hframe : v = { w with keys := v.keys })
    (h : ∀ k, (w.change c).keys.get k = v.keys.get k) : w.change c = v := by
  rw [change_frame, Keypad.ext h]
  exact hframe.symm

/-- Changes that say the same of every key have the same effect. -/
theorem change_congr {c d : KeyChange}
    (h : ∀ k : Fin 16, c.concerns k.val = d.concerns k.val ∧ c.holds k.val = d.holds k.val) :
    w.change c = w.change d := by
  refine w.change_eq_of_get c (w.change_frame d) fun k => ?_
  rw [get_change, get_change, (h k).1, (h k).2]

/-- A change that concerns no key changes nothing. -/
theorem change_of_unconcerned {c : KeyChange} (h : ∀ k : Fin 16, c.concerns k.val = false) :
    w.change c = w := by
  refine w.change_eq_of_get c rfl fun k => ?_
  rw [get_change, h k]
  rfl

/-- A change that is made again changes nothing more. -/
theorem change_change : (w.change c).change c = w.change c := by
  refine (w.change c).change_eq_of_get c rfl fun k => ?_
  rw [get_change, get_change]
  split <;> rfl

/-- **A sequence of changes of one key**, by induction: the last change that concerns it decides,
and without one the key is as it was at first. -/
theorem get_changes (changes : List KeyChange) :
    (changes.foldl change w).keys.get k =
      (KeyChange.last? k.val changes).elim (w.keys.get k) (KeyChange.holds k.val) := by
  induction changes using List.reverseRecOn with
  | nil => rfl
  | append_singleton changes c ih =>
    rw [List.foldl_append, List.foldl_cons, List.foldl_nil, get_change, KeyChange.last?_concat, ih]
    cases c.concerns k.val with
    | true => rfl
    | false => rfl

/-- **The last change decides.** A code is in the snapshot exactly if it names a key and the last
change that concerns this key, or the collection at first if none does, has it held. Codes that name
no key change nothing, pressed, released or as part of a set; neither do keys of a keyboard that
show no hex digit. A change that is made twice in a row is made once. -/
theorem keys_follow_last_change (w : Window) (initial : List Int) :
    (∀ changes k,
      k ∈ (changes.foldl change { w with keys := Keypad.ofKeys initial }).keys.snapshot ↔
      Keypad.IsCode k ∧
        (KeyChange.last? k changes).elim (initial.contains k) (KeyChange.holds k) = true) ∧
    (∀ code, ¬ Keypad.IsCode code →
      w.change (.press code) = w ∧ w.change (.release code) = w) ∧
    (∀ codes, w.change (.set codes) =
      w.change (.set (codes.filter fun code => Keypad.IsCode code))) ∧
    (∀ code, (∀ k, Keypad.IsCode k → code ≠ keyboardCode k) →
      w.change (.event (.keyDown code)) = w ∧ w.change (.event (.keyUp code)) = w) ∧
    ∀ c, (w.change c).change c = w.change c := by
  refine ⟨fun changes k => ?_, fun code hcode => ?_, fun codes => ?_, fun code hcode => ?_,
    w.change_change⟩
  · rw [Keypad.mem_snapshot_iff]
    constructor
    · rintro ⟨j, rfl, hj⟩
      rw [get_changes, Keypad.get_ofKeys] at hj
      exact ⟨Keypad.isCode_val j, hj⟩
    · rintro ⟨hcode, hk⟩
      obtain ⟨j, rfl⟩ := Keypad.exists_key hcode
      refine ⟨j, rfl, ?_⟩
      rw [get_changes, Keypad.get_ofKeys]
      exact hk
  · have hunconcerned : ∀ k : Fin 16, (code == (k.val : Int)) = false := fun k =>
      beq_eq_false_iff_ne.mpr fun he => hcode (he ▸ Keypad.isCode_val k)
    exact ⟨w.change_of_unconcerned hunconcerned, w.change_of_unconcerned hunconcerned⟩
  · refine w.change_congr fun k => ⟨rfl, ?_⟩
    show codes.contains (k.val : Int) = (codes.filter _).contains (k.val : Int)
    rw [Bool.eq_iff_iff, List.contains_iff_mem, List.contains_iff_mem, List.mem_filter]
    exact (and_iff_left (decide_eq_true (Keypad.isCode_val k))).symm
  · have hunconcerned : ∀ k : Fin 16, (code == keyboardCode k.val) = false := fun k =>
      beq_eq_false_iff_ne.mpr (hcode k.val (Keypad.isCode_val k))
    exact ⟨w.change_of_unconcerned hunconcerned, w.change_of_unconcerned hunconcerned⟩

/-- A window on which nothing has happened. -/
def untouched : Window :=
  { scale := 1, palette := ⟨⟨255, 255, 255⟩, ⟨0, 0, 0⟩⟩, title := "CHIP-8", keys := Keypad.none,
    frames := FrameBuffer.empty }

/-- Calls and events on the keys 3, 7 and A, with codes that name no key among them. -/
def mixedChanges : List KeyChange :=
  [.release 3, .event (.keyDown 97), .set [7, -1, 10], .press 16, .event (.keyUp 97),
    .event (.keyDown 51), .event (.keyDown 27)]

/-- The codes of the keys held after them, from keys 3 and 5 on. -/
def mixedSnapshot : List Int :=
  (mixedChanges.foldl change { untouched with keys := Keypad.ofKeys [3, 5] }).keys.snapshot

/-- Key 3 goes down last, key A goes up last, and of keys 5 and 7 the set decides. -/
theorem keys_after_mixedChanges :
    ¬ Keypad.IsCode 16 ∧ untouched.change (.press 16) = untouched ∧
      3 ∈ mixedSnapshot ∧ 7 ∈ mixedSnapshot ∧ 5 ∉ mixedSnapshot ∧ 10 ∉ mixedSnapshot := by
  obtain ⟨hlast, hcodes, -⟩ := keys_follow_last_change untouched [3, 5]
  have hsixteen : ¬ Keypad.IsCode 16 := by decide
  refine ⟨hsixteen, (hcodes 16 hsixteen).1, (hlast _ 3).mpr (by decide),
    (hlast _ 7).mpr (by decide), fun h => ?_, fun h => ?_⟩
  · exact absurd ((hlast _ 5).mp h) (by decide)
  · exact absurd ((hlast _ 10).mp h) (by decide)

end Window

end Chip8
