/-
Chip8.Proofs.Showing — what a window does beside a machine.

A turn of a showing is shown if its frames are accepted, none of its events
closes the window and nothing fails (`Shown`). Such a turn applies its
events and paints one image, of the picture that is the latest then
(`Window.GoesOn`). A showing is a number of shown turns and an end
(`Window.Ends`): the thread has ended, an event closes the window, or the
look at the thread or the painting fails, for a reason of the window's own
or from outside. `Window.showing_course` says so of every window that can
be opened and any turns, with the calls to the machine.

What a display takes and what it refuses is its own affair. All that is
asked of it is `Display.Takes`: windows of some greatest side, and titles
without a null character. The usual display does so up to 16384 pixels
(`Display.takes_usual`), which is a scale of 256.
-/
import Chip8.Proofs.Enlarging
import Chip8.Proofs.Publishing
import Chip8.Window

namespace Chip8

/-! ## Events -/

/-- The events that close a window: its own, and the escape key going down. -/
def Event.Closing (e : Event) : Prop := e = .quit ∨ e = .keyDown 27

theorem Window.closes_iff (e : Event) : closes e = true ↔ e.Closing := by
  cases e with
  | keyDown code => simp [closes, Event.Closing, escapeCode]
  | keyUp code | quit | other => simp [closes, Event.Closing]

namespace Window

variable (w : Window)

/-- The window after frames were published to it and events applied, in order. -/
def after (frames : List Frame) (events : List Event) : Window :=
  { w with
    keys := events.foldl handleKeys w.keys
    frames := frames.foldl FrameBuffer.offer w.frames }

theorem after_after (frames frames' : List Frame) (events events' : List Event) :
    (w.after frames events).after frames' events' =
      w.after (frames ++ frames') (events ++ events') := by
  unfold after
  rw [List.foldl_append, List.foldl_append]

/-- Events that do not close the window are applied, in order. -/
theorem handleAll_append {events : List Event} (h : ∀ e ∈ events, ¬ e.Closing)
    (more : List Event) : w.handleAll (events ++ more) = (w.after [] events).handleAll more := by
  induction events generalizing w with
  | nil => rfl
  | cons e rest ih =>
    have he : closes e = false :=
      Bool.eq_false_iff.mpr fun hcloses => h e List.mem_cons_self ((closes_iff e).mp hcloses)
    have hrest := ih { w with keys := handleKeys w.keys e } fun d hd =>
      h d (List.mem_cons_of_mem e hd)
    rw [List.cons_append, handleAll, handle, he]
    exact hrest

theorem handleAll_of_open {events : List Event} (h : ∀ e ∈ events, ¬ e.Closing) :
    w.handleAll events = (w.after [] events, true) := by
  have happend := w.handleAll_append h []
  rw [List.append_nil] at happend
  exact happend

/-- The first event that closes the window is not applied, and neither are those behind it. -/
theorem handleAll_of_closing {events later : List Event} {e : Event}
    (h : ∀ d ∈ events, ¬ d.Closing) (he : e.Closing) :
    w.handleAll (events ++ e :: later) = (w.after [] events, false) := by
  have hcloses := (closes_iff e).mpr he
  rw [w.handleAll_append h, handleAll, handle, hcloses]
  rfl

end Window

/-! ## Turns -/

section

variable {ε : Type}

/-- A turn that is shown: all frames are accepted, no event closes the window, nothing fails. -/
structure Shown (c : Turn × Trouble ε) : Prop where
  frames : ∀ f ∈ c.1.frames, f.IsPicture
  look : c.2.look = none
  events : ∀ e ∈ c.1.events, ¬ e.Closing
  display : c.2.display = none

namespace Window

/-- The window after turns that are shown. -/
def afterTurns (w : Window) (cs : List (Turn × Trouble ε)) : Window :=
  w.after (cs.flatMap fun c => c.1.frames) (cs.flatMap fun c => c.1.events)

theorem afterTurns_cons (w : Window) (c : Turn × Trouble ε) (rest : List (Turn × Trouble ε)) :
    w.afterTurns (c :: rest) = (w.after c.1.frames c.1.events).afterTurns rest := by
  unfold afterTurns
  rw [List.flatMap_cons, List.flatMap_cons, after_after]

/-- An image shows the latest picture of a window, by columns and at its scale. -/
def Paints (w : Window) (image : Image) : Prop :=
  image.Sized (64 * w.scale.toNat) (32 * w.scale.toNat) ∧
    ∀ x y, image.pixel? x y =
      Image.shade? w.frames.latest w.palette (x / w.scale.toNat) (y / w.scale.toNat)

/-- How a showing ends without another image: what it answers for the turns from here on. -/
inductive Ends (w : Window) : List (Turn × Trouble ε) → Showing × Option ε → Prop
  /-- The thread has ended. -/
  | over : w.Ends [] (⟨w, [], [], none⟩, none)
  /-- A frame is refused as the thread is looked at; those before it were published. -/
  | refused {c : Turn × Trouble ε} {rest : List (Turn × Trouble ε)} {good more : List Frame}
    {f : Frame} (hframes : c.1.frames = good ++ f :: more) (hgood : ∀ g ∈ good, g.IsPicture)
    (hf : ¬ f.IsPicture) :
    w.Ends (c :: rest) (⟨w.after good [], [], [], some (.frame ⟨f.shape⟩)⟩, none)
  /-- The look at the thread fails. -/
  | unseen {c : Turn × Trouble ε} {rest : List (Turn × Trouble ε)} {failure : ε}
    (hframes : ∀ f ∈ c.1.frames, f.IsPicture) (hlook : c.2.look = some failure) :
    w.Ends (c :: rest) (⟨w.after c.1.frames [], [], [], none⟩, some failure)
  /-- An event closes the window: those before it are applied, those behind it are not, and the
  machine is asked to stop. -/
  | closed {c : Turn × Trouble ε} {rest : List (Turn × Trouble ε)} {events later : List Event}
    {e : Event} (hframes : ∀ f ∈ c.1.frames, f.IsPicture) (hlook : c.2.look = none)
    (hevents : c.1.events = events ++ e :: later) (hopen : ∀ d ∈ events, ¬ d.Closing)
    (hclosing : e.Closing) :
    w.Ends (c :: rest) (⟨w.after c.1.frames events, [.stop], [], none⟩, none)
  /-- The scale is too small for an image. -/
  | unpainted {c : Turn × Trouble ε} {rest : List (Turn × Trouble ε)}
    (hframes : ∀ f ∈ c.1.frames, f.IsPicture) (hlook : c.2.look = none)
    (hopen : ∀ e ∈ c.1.events, ¬ e.Closing) (hscale : w.scale < 1) :
    w.Ends (c :: rest)
      (⟨w.after c.1.frames c.1.events, [], [], some (.render (.scale w.scale))⟩, none)
  /-- The scale is no number of repetitions. -/
  | unrepeated {c : Turn × Trouble ε} {rest : List (Turn × Trouble ε)}
    (hframes : ∀ f ∈ c.1.frames, f.IsPicture) (hlook : c.2.look = none)
    (hopen : ∀ e ∈ c.1.events, ¬ e.Closing) (hscale : 9223372036854775808 ≤ w.scale) :
    w.Ends (c :: rest)
      (⟨w.after c.1.frames c.1.events, [], [], some (.render (.repeats w.scale))⟩, none)
  /-- The display fails. -/
  | undisplayed {c : Turn × Trouble ε} {rest : List (Turn × Trouble ε)} {failure : ε}
    (hframes : ∀ f ∈ c.1.frames, f.IsPicture) (hlook : c.2.look = none)
    (hopen : ∀ e ∈ c.1.events, ¬ e.Closing) (hscale : 1 ≤ w.scale)
    (hmax : w.scale < 9223372036854775808) (hdisplay : c.2.display = some failure) :
    w.Ends (c :: rest) (⟨w.after c.1.frames c.1.events, [], [], none⟩, some failure)

variable {w : Window} {c : Turn × Trouble ε} {rest : List (Turn × Trouble ε)}

theorem turns_of_refused {good more : List Frame} {f : Frame}
    (hframes : c.1.frames = good ++ f :: more) (hgood : ∀ g ∈ good, g.IsPicture)
    (hf : ¬ f.IsPicture) :
    w.turns (c :: rest) = (⟨w.after good [], [], [], some (.frame ⟨f.shape⟩)⟩, none) := by
  rw [turns, hframes, w.frames.publishAll_of_refused hgood hf]
  rfl

theorem turns_of_unseen (hframes : ∀ f ∈ c.1.frames, f.IsPicture) {failure : ε}
    (hlook : c.2.look = some failure) :
    w.turns (c :: rest) = (⟨w.after c.1.frames [], [], [], none⟩, some failure) := by
  rw [turns, w.frames.publishAll_of_pictures hframes]
  dsimp only
  rw [hlook]
  rfl

theorem turns_of_closed (hframes : ∀ f ∈ c.1.frames, f.IsPicture) (hlook : c.2.look = none)
    {events later : List Event} {e : Event} (hevents : c.1.events = events ++ e :: later)
    (hopen : ∀ d ∈ events, ¬ d.Closing) (hclosing : e.Closing) :
    w.turns (c :: rest) = (⟨w.after c.1.frames events, [.stop], [], none⟩, none) := by
  rw [turns, w.frames.publishAll_of_pictures hframes]
  dsimp only
  rw [hlook, hevents]
  dsimp only
  rw [handleAll_of_closing _ hopen hclosing]
  rfl

/-- A turn without a closing event is over as soon as its image fails, or the display that is to
show it. -/
theorem turns_of_open (hframes : ∀ f ∈ c.1.frames, f.IsPicture) (hlook : c.2.look = none)
    (hopen : ∀ e ∈ c.1.events, ¬ e.Closing) {u : Window} (hu : w.after c.1.frames c.1.events = u) :
    (∀ e, u.render = .error e →
      w.turns (c :: rest) = (⟨u, [], [], some (.render e)⟩, none)) ∧
    (∀ image failure, u.render = .ok image → c.2.display = some failure →
      w.turns (c :: rest) = (⟨u, [], [], none⟩, some failure)) ∧
    ∀ image, u.render = .ok image → c.2.display = none →
      w.turns (c :: rest) =
        ({ (u.turns rest).1 with painted := image :: (u.turns rest).1.painted },
          (u.turns rest).2) := by
  have hfields :
      ({ w with frames := c.1.frames.foldl FrameBuffer.offer w.frames } : Window).after []
        c.1.events = u := hu
  have hhandled := handleAll_of_open
    { w with frames := c.1.frames.foldl FrameBuffer.offer w.frames } hopen
  rw [hfields] at hhandled
  rw [turns, w.frames.publishAll_of_pictures hframes]
  simp only [hlook, hhandled]
  refine ⟨fun e he => ?_, fun image failure himage hdisplay => ?_, fun image himage hdisplay => ?_⟩
  · rw [he]
  · rw [himage]
    simp only [hdisplay]
  · rw [himage]
    simp only [hdisplay]

/-- The image that a window paints, if its scale is a number of repetitions. -/
theorem render_eq (w : Window) (h : 1 ≤ w.scale) (hmax : w.scale < 9223372036854775808) :
    ∃ image, w.render = .ok image ∧ w.Paints image :=
  Image.renderColumns_eq w.frames.latest w.palette h hmax

theorem render_of_small (w : Window) (h : w.scale < 1) :
    w.render = .error (.scale w.scale) :=
  Image.renderColumns_of_small w.frames.latest w.palette h

theorem render_of_large (w : Window) (h : 9223372036854775808 ≤ w.scale) :
    w.render = .error (.repeats w.scale) :=
  Image.renderColumns_of_large w.frames.latest w.palette h

variable (w c rest) in
/-- The first turn is shown and paints one image, and the showing goes on. -/
def GoesOn : Prop :=
  Shown c ∧ ∃ image, (w.after c.1.frames c.1.events).Paints image ∧
    w.turns (c :: rest) =
      ({ ((w.after c.1.frames c.1.events).turns rest).1 with
          painted := image :: ((w.after c.1.frames c.1.events).turns rest).1.painted },
        ((w.after c.1.frames c.1.events).turns rest).2)

/-- A turn that no event ends is shown, or its painting fails. -/
theorem goesOn_or_ends_of_open (hframes : ∀ f ∈ c.1.frames, f.IsPicture)
    (hlook : c.2.look = none) (hopen : ∀ e ∈ c.1.events, ¬ e.Closing) :
    w.GoesOn c rest ∨ w.Ends (c :: rest) (w.turns (c :: rest)) := by
  obtain ⟨hunpainted, hundisplayed, hpainted⟩ :=
    turns_of_open (c := c) (w := w) hframes hlook hopen rfl
  by_cases hsmall : w.scale < 1
  · rw [hunpainted _ (render_of_small (w.after c.1.frames c.1.events) hsmall)]
    exact .inr (.unpainted hframes hlook hopen hsmall)
  have hscale : 1 ≤ w.scale := by omega
  by_cases hlarge : 9223372036854775808 ≤ w.scale
  · rw [hunpainted _ (render_of_large (w.after c.1.frames c.1.events) hlarge)]
    exact .inr (.unrepeated hframes hlook hopen hlarge)
  have hmax : w.scale < 9223372036854775808 := by omega
  obtain ⟨image, himage, hpaints⟩ := render_eq (w.after c.1.frames c.1.events) hscale hmax
  cases hdisplay : c.2.display with
  | some failure =>
    rw [hundisplayed image failure himage hdisplay]
    exact .inr (.undisplayed hframes hlook hopen hscale hmax hdisplay)
  | none =>
    exact .inl ⟨⟨hframes, hlook, hopen, hdisplay⟩, image, hpaints,
      hpainted image himage hdisplay⟩

variable (w c rest) in
/-- **One turn**: the showing goes on or ends. -/
theorem goesOn_or_ends : w.GoesOn c rest ∨ w.Ends (c :: rest) (w.turns (c :: rest)) := by
  cases hrefused : c.1.frames.find? fun f => ¬ f.IsPicture with
  | some f =>
    obtain ⟨hf, good, more, hframes, hgood⟩ := List.find?_eq_some_iff_append.mp hrefused
    have hf : ¬ f.IsPicture := of_decide_eq_true hf
    have hgood : ∀ g ∈ good, g.IsPicture := fun g hg => by simpa using hgood g hg
    rw [turns_of_refused hframes hgood hf]
    exact .inr (.refused hframes hgood hf)
  | none =>
    have hframes : ∀ f ∈ c.1.frames, f.IsPicture := fun f hf => by
      simpa using List.find?_eq_none.mp hrefused f hf
    cases hlook : c.2.look with
    | some failure =>
      rw [turns_of_unseen hframes hlook]
      exact .inr (.unseen hframes hlook)
    | none =>
      cases hclosing : c.1.events.find? closes with
      | some e =>
        obtain ⟨he, events, later, hevents, hopen⟩ := List.find?_eq_some_iff_append.mp hclosing
        have he : e.Closing := (closes_iff e).mp he
        have hopen : ∀ d ∈ events, ¬ d.Closing := fun d hd hd' => by
          simpa [(closes_iff d).mpr hd'] using hopen d hd
        rw [turns_of_closed hframes hlook hevents hopen he]
        exact .inr (.closed hframes hlook hevents hopen he)
      | none =>
        have hopen : ∀ e ∈ c.1.events, ¬ e.Closing := fun e he he' =>
          List.find?_eq_none.mp hclosing e he ((closes_iff e).mpr he')
        exact goesOn_or_ends_of_open hframes hlook hopen

/-! ## Showings -/

/-- The images are those of the turns: each shows the latest picture after its turn. -/
def PaintsEach (w : Window) (images : List Image) (shown : List (Turn × Trouble ε)) : Prop :=
  images.length = shown.length ∧
    ∀ i image, images[i]? = some image → (w.afterTurns (shown.take (i + 1))).Paints image

theorem paintsEach_cons {image : Image} {images : List Image} {shown : List (Turn × Trouble ε)}
    (h : (w.after c.1.frames c.1.events).Paints image)
    (hrest : (w.after c.1.frames c.1.events).PaintsEach images shown) :
    w.PaintsEach (image :: images) (c :: shown) := by
  refine ⟨congrArg (· + 1) hrest.1, fun i other hother => ?_⟩
  rw [List.take_succ_cons, afterTurns_cons]
  cases i with
  | zero =>
    cases hother
    exact h
  | succ i => exact hrest.2 i other hother

/-- **The turns of a showing**, by induction: those that are shown, and the end. -/
theorem turns_course (w : Window) (cs : List (Turn × Trouble ε)) :
    ∃ shown rest images ending failure, cs = shown ++ rest ∧
      (∀ c ∈ shown, Shown c) ∧ w.PaintsEach images shown ∧
      (w.afterTurns shown).Ends rest (ending, failure) ∧
      w.turns cs = ({ ending with painted := images }, failure) := by
  induction cs generalizing w with
  | nil =>
    exact ⟨[], [], [], _, _, rfl, fun _ h => absurd h List.not_mem_nil,
      ⟨rfl, fun i image h => by cases h⟩, .over, rfl⟩
  | cons c rest ih =>
    rcases w.goesOn_or_ends c rest with ⟨hshown, image, hpaints, hturn⟩ | hends
    · obtain ⟨shown, later, images, ending, failure, rfl, hall, himages, hends, hturns⟩ :=
        ih (w.after c.1.frames c.1.events)
      refine ⟨c :: shown, later, image :: images, ending, failure, rfl, ?_,
        paintsEach_cons hpaints himages, ?_, ?_⟩
      · exact List.forall_mem_cons.mpr ⟨hshown, hall⟩
      · rw [afterTurns_cons]
        exact hends
      · rw [hturn, hturns]
    · refine ⟨[], c :: rest, [], (w.turns (c :: rest)).1, (w.turns (c :: rest)).2, rfl,
        fun _ h => absurd h List.not_mem_nil, ⟨rfl, fun i image h => by cases h⟩, hends, ?_⟩
      generalize w.turns (c :: rest) = result at hends
      cases hends <;> rfl

end Window

end

/-! ## Opening -/

namespace Display

/-- What is asked of a display: it takes windows whose sides are at most so long, and titles without
a null character. -/
structure Takes {δ : Type} (d : Display δ) (side : Int) : Prop where
  mode : ∀ width height, 1 ≤ width → width ≤ side → 1 ≤ height → height ≤ side →
    d.setMode width height = .ok ()
  caption : ∀ title : String, title.contains '\x00' = false → d.setCaption title = .ok ()

/-- The usual display takes windows of up to 16384 pixels a side. -/
theorem takes_usual : usual.Takes 16384 where
  mode width height hwidth hwide hheight hhigh := by
    -- Such a side is a word of 64 bits, and as one of 32 bits it is still the same number.
    have hlong : ∀ {side : Int}, 1 ≤ side → side ≤ 16384 → isLongWord side = true := by
      intro side hlow hhigh
      simp only [isLongWord, Bool.and_eq_true, decide_eq_true_eq]
      omega
    have hshown : ∀ {side : Int}, 1 ≤ side → side ≤ 16384 → (Int32.ofInt side).toInt = side :=
      fun hlow hhigh => Int32.toInt_ofInt_of_le (by omega) (by omega)
    have hnegative : ∀ {side : Int}, 1 ≤ side → decide (side < 0) = false := fun h =>
      decide_eq_false (by omega)
    have hlarge : ∀ {side : Int}, side ≤ 16384 → decide (sideLimit < side) = false := fun h =>
      decide_eq_false (Int.not_lt.mpr h)
    simp only [usual, List.map_cons, List.map_nil, List.any_cons, List.any_nil,
      hlong hwidth hwide, hlong hheight hhigh, hshown hwidth hwide, hshown hheight hhigh,
      hnegative hwidth, hnegative hheight, hlarge hwide, hlarge hhigh, Bool.or_false,
      Bool.not_true, Bool.false_eq_true, if_false]
  caption title h := by
    simp only [usual, h, Bool.false_eq_true, if_false]

end Display

section

variable {δ ε : Type}

namespace Window

/-- A window of at most 256 pixels for a pixel can be opened. -/
theorem openOn_of_fits {d : Display δ} (hd : d.Takes 16384) (w : Window) (h : 1 ≤ w.scale)
    (hmax : w.scale ≤ 256) (htitle : w.title.contains '\x00' = false) : w.openOn d = .ok () := by
  have hwidth : w.scale * Screen.width = w.scale * 64 := rfl
  have hheight : w.scale * Screen.height = w.scale * 32 := rfl
  have hmode := hd.mode (w.scale * 64) (w.scale * 32) (by omega) (by omega) (by omega) (by omega)
  unfold openOn
  rw [hwidth, hheight, hmode]
  exact hd.caption w.title htitle

theorem runAmid_of_open {d : Display δ} {w : Window} (h : w.openOn d = .ok ())
    (cs : List (Turn × Trouble ε)) : w.runAmid d cs = .ok (w.present cs) := by
  rw [runAmid, h]
  rfl

/-- **The course of a showing.** A window that its display refuses asks nothing of the machine. One
whose title has no null character is refused at no scale up to 256 by a display that takes windows
of 16384 pixels.

Once it is open, the showing is that of some first turns, all shown, and of its end. It starts the
machine once, asks it to stop if an event closes the window, and in any case asks it to stop and
awaits it at the end. Each shown turn applies its events in order and paints one image, of the
picture that is the latest then; the turn that ends the showing paints none, and the turns behind it
are not looked at. -/
theorem showing_course (d : Display δ) (w : Window) (cs : List (Turn × Trouble ε)) :
    (d.Takes 16384 → 1 ≤ w.scale → w.scale ≤ 256 → w.title.contains '\x00' = false →
      w.openOn d = .ok ()) ∧
    (∀ e, w.openOn d = .error e → w.runAmid d cs = .error e) ∧
    (w.openOn d = .ok () →
      ∃ shown rest images ending failure, cs = shown ++ rest ∧ (∀ c ∈ shown, Shown c) ∧
        w.PaintsEach images shown ∧ (w.afterTurns shown).Ends rest (ending, failure) ∧
        w.runAmid d cs =
          .ok (⟨ending.window, .start :: ending.calls ++ [.stop, .join], images, ending.failure⟩,
            failure)) := by
  refine ⟨fun hd => w.openOn_of_fits hd, fun e he => ?_, fun hopens => ?_⟩
  · rw [runAmid, he]
    rfl
  · obtain ⟨shown, rest, images, ending, failure, hcs, hshown, himages, hends, hturns⟩ :=
      w.turns_course cs
    refine ⟨shown, rest, images, ending, failure, hcs, hshown, himages, hends, ?_⟩
    rw [runAmid_of_open hopens, present, hturns]

end Window

end

namespace Window

/-- A window at twice the size. -/
def doubled : Window :=
  { scale := 2, palette := ⟨⟨0, 255, 0⟩, ⟨0, 0, 0⟩⟩, title := "CHIP-8", keys := Keypad.none,
    frames := FrameBuffer.empty }

/-- A turn that publishes one lit pixel, and a turn that closes the window between two keys. -/
def lastTurns : List (Turn × Trouble Unit) :=
  [(⟨[Frame.ofScreen (Screen.ofLit [(3, 1)])], [.other]⟩, .none),
    (⟨[], [.keyDown 49, .quit, .keyDown 50]⟩, .none)]

/-- On the usual display one image is painted, with the pixel as a square; the first key is held,
the second is not. -/
theorem doubled_closes :
    ∃ (showing : Showing) (image : Image),
      doubled.runAmid Display.usual lastTurns = .ok (showing, none) ∧
      showing.calls = [.start, .stop, .stop, .join] ∧ showing.painted = [image] ∧
      image.pixel? 7 2 = some ⟨0, 255, 0⟩ ∧ image.pixel? 2 7 = some ⟨0, 0, 0⟩ ∧
      showing.window.keys.keys = [1] := by
  have hlaw := showing_course Display.usual doubled lastTurns
  have hopens := hlaw.1 Display.takes_usual (by decide) (by decide) (by simp [doubled])
  obtain ⟨shown, rest, images, ending, failure, hcs, -, himages, -, hrun⟩ := hlaw.2.2 hopens
  have hseen : ((doubled.present lastTurns).1.calls, (doubled.present lastTurns).1.painted.length,
      (doubled.present lastTurns).1.window.keys.keys, (doubled.present lastTurns).2) =
      ([.start, .stop, .stop, .join], 1, [1], none) := by
    decide +kernel
  have hpresent := Except.ok.inj ((runAmid_of_open hopens lastTurns).symm.trans hrun)
  rw [hpresent] at hseen
  simp only [Prod.mk.injEq] at hseen
  obtain ⟨hcalls, hlength, hkeys, rfl⟩ := hseen
  -- The one image is that of the first turn.
  obtain ⟨image, rfl⟩ := List.length_eq_one_iff.mp hlength
  obtain ⟨c, rfl⟩ := List.length_eq_one_iff.mp (himages.1.symm.trans hlength)
  obtain ⟨rfl, -⟩ := List.cons.inj hcs
  have hpixel := (himages.2 0 image rfl).2
  refine ⟨_, image, hrun, hcalls, rfl, ?_, ?_, hkeys⟩
  · rw [hpixel 7 2]
    decide +kernel
  · rw [hpixel 2 7]
    decide +kernel

/-- A window too large for the usual display, at a scale that an image could have. -/
def oversized : Window := { doubled with scale := 257 }

/-- **Such a window cannot be opened**, so the machine is not even started for it. -/
theorem oversized_not_shown :
    1 ≤ oversized.scale ∧ oversized.run Display.usual [⟨[], [.quit]⟩] = .error .tooLarge ∧
      ¬ ∃ showing, oversized.run Display.usual [⟨[], [.quit]⟩] = .ok showing ∧
        showing.calls = [.start, .stop, .stop, .join] := by
  have hopens : oversized.openOn Display.usual = .error .tooLarge := by rfl
  have hrun : oversized.run Display.usual [⟨[], [.quit]⟩] = .error .tooLarge := by
    rw [run, runAmid, hopens]
    rfl
  refine ⟨by decide, hrun, ?_⟩
  rintro ⟨showing, hok, -⟩
  rw [hrun] at hok
  cases hok

end Window

end Chip8
