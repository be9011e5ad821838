/-
Chip8.Proofs.Firings — what a loop fires, and when.

`Loop.firings` lists what a number of iterations of the loop fire, in
order: each instruction and each timer tick as a beat, with the time that
the loop saw and the deadline from which the activity counts afterwards.
It is read off the loop's own functions, and what failed is in it too.

`Loop.Fires` lists the ways in which one iteration can go, in terms of
the calls of the machine, together with what it fires
(`fires_iterate`). What becomes of a deadline is the same for the two
activities: it stays where it is, or the activity is due and fires once
(`Fires.cases_of`).
-/
import Chip8.Proofs.Polling

namespace Chip8

/-- A halt counts nothing. -/
theorem Rig.counts_halt {ω τ : Type} [OfNat τ 0] [Sub τ] (host : Host ω τ) (s : Rig ω τ)
    (error : Option Failure) :
    (s.halt host error).machine.cycles = s.machine.cycles ∧
      (s.halt host error).machine.ticks = s.machine.ticks := by
  obtain ⟨phase, journal, hhalt⟩ := s.act_frame host (.halt error)
  have hmachine : (s.halt host error).machine = _ := hhalt
  rw [hmachine]
  exact ⟨rfl, rfl⟩

/-! ## Activities -/

/-- What recurs in a loop. -/
inductive Activity where
  | instruction
  | timer
deriving DecidableEq, Repr

/-- The activity that a beat belongs to. -/
def Beat.activity : Beat → Activity
  | .cycle _ => .instruction
  | .tick => .timer

/-- A time at which an activity fired, and its last deadline from then on. -/
structure Firing (τ : Type) where
  now : τ
  last : τ
deriving DecidableEq, Repr

namespace Activity

/-- The time between two deadlines of an activity. -/
def period {τ : Type} [OfNat τ 1] [Div τ] (a : Activity) (c : Config τ) : τ :=
  match a with
  | .instruction => c.instructionPeriod
  | .timer => c.timerPeriod

/-- The firings of one of the two activities. -/
def firings {τ : Type} (a : Activity) (fired : List (Beat × Firing τ)) : List (Firing τ) :=
  (fired.filter fun e => e.1.activity = a).map Prod.snd

theorem firings_append {τ : Type} (a : Activity) (fired more : List (Beat × Firing τ)) :
    a.firings (fired ++ more) = a.firings fired ++ a.firings more := by
  unfold firings
  rw [List.filter_append, List.map_append]

end Activity

namespace Loop

/-- The last deadline of an activity. -/
def last {ω τ : Type} (l : Loop ω τ) : Activity → τ
  | .instruction => l.lastInstruction
  | .timer => l.lastTimer

/-! ## What a loop fires -/

section

variable {ω τ : Type} [OfNat τ 0] [OfNat τ 1] [OfNat τ 4] [Add τ] [Sub τ] [Mul τ] [Div τ]
  [LE τ] [DecidableLE τ] [LT τ] [DecidableLT τ] [HasRates τ]

/-- What an iteration fires that sees the time `now`. -/
def firedAt (host : Host ω τ) (now : τ) (l : Loop ω τ) : List (Beat × Firing τ) :=
  let codes := host.pressedKeys l.rig.world
  match l.fireInstruction host now with
  | (l, fired, failure) =>
    (if fired then [(.cycle codes, ⟨now, l.lastInstruction⟩)] else []) ++
      match failure with
      | some _ => []
      | none =>
        match l.fireTimer host now with
        | (l, ticked, _) => if ticked then [(.tick, ⟨now, l.lastTimer⟩)] else []

/-- What an iteration fires. -/
def fired (host : Host ω τ) (l : Loop ω τ) : List (Beat × Firing τ) :=
  let (now, rig) := l.rig.readClock host
  firedAt host now { l with rig := rig }

/-- What a loop fires in at most `fuel` iterations. -/
def firings (host : Host ω τ) : Nat → Loop ω τ → List (Beat × Firing τ)
  | 0, _ => []
  | fuel + 1, l =>
    if l.rig.machine.goesOn then
      l.fired host ++
        match l.iterate host with
        | (_, some _) => []
        | (l, none) => firings host fuel l
    else []

end

section

variable {ω τ : Type} [OfNat τ 1] [OfNat τ 4] [Add τ] [Sub τ] [Mul τ] [Div τ] [LE τ]
  [DecidableLE τ]

/-- Whether an activity is due at the time `now`. -/
def isDue (l : Loop ω τ) (now : τ) (a : Activity) : Bool :=
  Pace.isDue (l.last a) (a.period l.rig.machine.config) now

/-- The deadline that an activity moves on to if it fires at the time `now`. -/
def next (l : Loop ω τ) (now : τ) (a : Activity) : τ :=
  Pace.next (l.last a) (a.period l.rig.machine.config) now

/-- The loop after an activity has fired and left the rig behind. -/
def moved (l : Loop ω τ) (now : τ) (rig : Rig ω τ) : Activity → Loop ω τ
  | .instruction => { l with rig := rig, lastInstruction := l.next now .instruction }
  | .timer => { l with rig := rig, lastTimer := l.next now .timer }

variable (l : Loop ω τ) (now : τ) (rig : Rig ω τ)

@[simp] theorem rig_moved (a : Activity) : (l.moved now rig a).rig = rig := by
  cases a <;> rfl

@[simp] theorem last_moved_self (a : Activity) : (l.moved now rig a).last a = l.next now a := by
  cases a <;> rfl

@[simp] theorem last_moved_instruction :
    (l.moved now rig .instruction).last .timer = l.last .timer := rfl

@[simp] theorem last_moved_timer :
    (l.moved now rig .timer).last .instruction = l.last .instruction := rfl

end

section

variable {ω τ : Type} [OfNat τ 0] [OfNat τ 1] [OfNat τ 4] [Add τ] [Sub τ] [Mul τ] [Div τ]
  [LE τ] [DecidableLE τ] [HasRates τ] {host : Host ω τ} {now : τ} {l l' : Loop ω τ}

variable (host) in
theorem firings_of_stopped (fuel : Nat) (hgo : ¬ l.rig.machine.goesOn = true) :
    l.firings host fuel = [] := by
  cases fuel with
  | zero => rfl
  | succ fuel => rw [firings, if_neg hgo]

variable (host) in
/-- Nothing is fired after a failure. -/
theorem firings_of_failure (fuel : Nat) (hgo : l.rig.machine.goesOn = true) {e : Failure}
    (hiterate : l.iterate host = (l', some e)) : l.firings host (fuel + 1) = l.fired host := by
  rw [firings, if_pos hgo, hiterate, List.append_nil]

variable (host) in
theorem firings_of_success (fuel : Nat) (hgo : l.rig.machine.goesOn = true)
    (hiterate : l.iterate host = (l', none)) :
    l.firings host (fuel + 1) = l.fired host ++ l'.firings host fuel := by
  rw [firings, if_pos hgo, hiterate]

/-- A greater number of iterations changes neither an answer nor what was fired on the way to
it. -/
theorem finish_add {fuel : Nat} {r : Rig ω τ × Option Failure}
    (hfinish : l.finish host fuel = some r) (more : Nat) :
    l.finish host (fuel + more) = some r ∧
      l.firings host (fuel + more) = l.firings host fuel := by
  induction fuel generalizing l with
  | zero => cases hfinish
  | succ fuel ih =>
    rw [Nat.add_right_comm]
    by_cases hgo : l.rig.machine.goesOn
    · rw [finish, if_pos hgo] at hfinish ⊢
      rcases hiterate : l.iterate host with ⟨l', _ | e⟩
      · rw [hiterate] at hfinish
        obtain ⟨hsame, hfired⟩ := ih hfinish
        rw [firings_of_success host _ hgo hiterate, firings_of_success host _ hgo hiterate, hfired]
        exact ⟨hsame, rfl⟩
      · rw [hiterate] at hfinish
        rw [firings_of_failure host _ hgo hiterate, firings_of_failure host _ hgo hiterate]
        exact ⟨hfinish, rfl⟩
    · rw [finish, if_neg hgo] at hfinish ⊢
      rw [firings_of_stopped host _ hgo, firings_of_stopped host _ hgo]
      exact ⟨hfinish, rfl⟩

theorem fireInstruction_eq (host : Host ω τ) (now : τ) (l : Loop ω τ) :
    l.fireInstruction host now =
      if l.isDue now .instruction then
        (l.moved now (l.rig.cycle host).1 .instruction, true, (l.rig.cycle host).2)
      else (l, false, none) := rfl

omit [OfNat τ 0] in
theorem fireTimer_eq (host : Host ω τ) (now : τ) (l : Loop ω τ) :
    l.fireTimer host now =
      if l.rig.machine.goesOn && l.isDue now .timer then
        (l.moved now (l.rig.tick host).1 .timer, true, (l.rig.tick host).2)
      else (l, false, none) := rfl

/-- How an iteration goes that sees the time `now`, and what it fires. -/
inductive Fires (host : Host ω τ) (now : τ) (l : Loop ω τ) :
    List (Beat × Firing τ) → Loop ω τ × Option Failure → Prop
  | failed {u : Rig ω τ} {e : Failure} (due : l.isDue now .instruction = true)
      (cycle : l.rig.cycle host = (u, some e)) :
      Fires host now l
        [(.cycle (host.pressedKeys l.rig.world), ⟨now, l.next now .instruction⟩)]
        (l.moved now u .instruction, some e)
  | cycle {u : Rig ω τ} (due : l.isDue now .instruction = true)
      (cycle : l.rig.cycle host = (u, none))
      (rests : (u.machine.goesOn && (l.moved now u .instruction).isDue now .timer) = false) :
      Fires host now l
        [(.cycle (host.pressedKeys l.rig.world), ⟨now, l.next now .instruction⟩)]
        (l.moved now u .instruction, none)
  | both {u v : Rig ω τ} {failure : Option Failure} (due : l.isDue now .instruction = true)
      (cycle : l.rig.cycle host = (u, none)) (goesOn : u.machine.goesOn = true)
      (timer : (l.moved now u .instruction).isDue now .timer = true)
      (tick : u.tick host = (v, failure)) :
      Fires host now l
        [(.cycle (host.pressedKeys l.rig.world), ⟨now, l.next now .instruction⟩),
          (.tick, ⟨now, (l.moved now u .instruction).next now .timer⟩)]
        ((l.moved now u .instruction).moved now v .timer, failure)
  | tick {v : Rig ω τ} {failure : Option Failure} (undue : l.isDue now .instruction = false)
      (goesOn : l.rig.machine.goesOn = true) (timer : l.isDue now .timer = true)
      (tick : l.rig.tick host = (v, failure)) :
      Fires host now l [(.tick, ⟨now, l.next now .timer⟩)] (l.moved now v .timer, failure)
  | idle {r : Loop ω τ × Option Failure} (undue : l.isDue now .instruction = false)
      (rests : (l.rig.machine.goesOn && l.isDue now .timer) = false)
      (slept : l.idle host = r) : Fires host now l [] r

theorem fires_iterateAt (host : Host ω τ) (now : τ) (l : Loop ω τ) :
    l.Fires host now (l.firedAt host now) (l.iterateAt host now) := by
  unfold firedAt iterateAt
  rw [fireInstruction_eq]
  cases hdue : l.isDue now .instruction with
  | true =>
    rcases hcycle : l.rig.cycle host with ⟨u, _ | e⟩
    · simp only [if_true, fireTimer_eq, rig_moved]
      cases htimer : u.machine.goesOn && (l.moved now u .instruction).isDue now .timer with
      | true =>
        obtain ⟨hgo, htimer⟩ := Bool.and_eq_true_iff.mp htimer
        rcases htick : u.tick host with ⟨v, _ | e⟩
        · exact .both hdue hcycle hgo htimer htick
        · exact .both hdue hcycle hgo htimer htick
      | false => exact .cycle hdue hcycle htimer
    · exact .failed hdue hcycle
  | false =>
    simp only [Bool.false_eq_true, if_false, fireTimer_eq]
    cases htimer : l.rig.machine.goesOn && l.isDue now .timer with
    | true =>
      obtain ⟨hgo, htimer⟩ := Bool.and_eq_true_iff.mp htimer
      rcases htick : l.rig.tick host with ⟨v, _ | e⟩
      · exact .tick hdue hgo htimer htick
      · exact .tick hdue hgo htimer htick
    | false => exact .idle hdue htimer rfl

/-- An iteration sees the time that the clock shows. -/
theorem fires_iterate (host : Host ω τ) (l : Loop ω τ) :
    Fires host (l.rig.readClock host).1 { l with rig := (l.rig.readClock host).2 }
      (l.fired host) (l.iterate host) :=
  fires_iterateAt host _ _

/-- The machine counts what an iteration without a failure fires, and the settings stay as they
are. -/
theorem Fires.counts {fired : List (Beat × Firing τ)} (h : l.Fires host now fired (l', none))
    (hgo : l.rig.machine.goesOn = true) :
    l'.rig.machine.cycles = l.rig.machine.cycles + (Activity.instruction.firings fired).length ∧
      l'.rig.machine.ticks = l.rig.machine.ticks + (Activity.timer.firings fired).length ∧
      l'.rig.machine.config = l.rig.machine.config := by
  have hrunning := l.rig.machine.running_of_goesOn hgo
  cases h with
  | cycle due cycle rests =>
    rw [rig_moved]
    exact Rig.counts_of_cycle hrunning cycle
  | @both u v _ due cycle goesOn timer tick =>
    obtain ⟨hcycles, hticks, hconfig⟩ := Rig.counts_of_cycle hrunning cycle
    obtain ⟨hcycles', hticks', hconfig'⟩ :=
      Rig.counts_of_tick (u.machine.running_of_goesOn goesOn) tick
    rw [rig_moved, hcycles', hticks', hconfig', hcycles, hticks, hconfig]
    exact ⟨rfl, rfl, rfl⟩
  | tick undue goesOn timer tick =>
    rw [rig_moved]
    exact Rig.counts_of_tick hrunning tick
  | idle undue rests slept =>
    obtain ⟨hinstructions, htimers, hconfig⟩ := kept_of_idle slept
    exact ⟨congrArg Prod.snd hinstructions, congrArg Prod.snd htimers, hconfig⟩

/-- **What an iteration does to an activity**: it leaves the deadline where it is, or the activity
is due, fires once and moves on to its next deadline. -/
theorem Fires.cases_of {fired : List (Beat × Firing τ)} {r : Loop ω τ × Option Failure}
    (h : l.Fires host now fired r) (hgo : l.rig.machine.goesOn = true) (a : Activity) :
    (a.firings fired = [] ∧ ∀ l', r = (l', none) → l'.last a = l.last a) ∨
    (l.isDue now a = true ∧ a.firings fired = [⟨now, l.next now a⟩] ∧
      ∀ l', r = (l', none) → l'.last a = l.next now a) := by
  have hrunning := l.rig.machine.running_of_goesOn hgo
  cases h with
  | failed due cycle =>
    cases a with
    | instruction => exact .inr ⟨due, rfl, by simp⟩
    | timer => exact .inl ⟨rfl, by simp⟩
  | cycle due cycle rests =>
    cases a with
    | instruction =>
      refine .inr ⟨due, rfl, ?_⟩
      rintro l' ⟨⟩
      exact last_moved_self ..
    | timer =>
      refine .inl ⟨rfl, ?_⟩
      rintro l' ⟨⟩
      exact last_moved_instruction ..
  | @both u v failure due cycle goesOn timer tick =>
    cases a with
    | instruction =>
      refine .inr ⟨due, rfl, ?_⟩
      rintro l' ⟨⟩
      exact (last_moved_timer ..).trans (last_moved_self ..)
    | timer =>
      -- The period is still the one from before the instruction.
      obtain ⟨-, -, hconfig⟩ := Rig.counts_of_cycle hrunning cycle
      have hdue : (l.moved now u .instruction).isDue now .timer = l.isDue now .timer := by
        rw [isDue, rig_moved, hconfig]
        rfl
      have hnext : (l.moved now u .instruction).next now .timer = l.next now .timer := by
        rw [next, rig_moved, hconfig]
        rfl
      refine .inr ⟨hdue ▸ timer, by rw [← hnext]; rfl, ?_⟩
      rintro l' ⟨⟩
      rw [last_moved_self, hnext]
  | tick undue goesOn timer tick =>
    cases a with
    | instruction =>
      refine .inl ⟨rfl, ?_⟩
      rintro l' ⟨⟩
      exact last_moved_timer ..
    | timer =>
      refine .inr ⟨timer, rfl, ?_⟩
      rintro l' ⟨⟩
      exact last_moved_self ..
  | idle undue rests slept =>
    refine .inl ⟨rfl, ?_⟩
    rintro l' rfl
    obtain ⟨hinstructions, htimers, -⟩ := kept_of_idle slept
    cases a with
    | instruction => exact congrArg Prod.fst hinstructions
    | timer => exact congrArg Prod.fst htimers

/-- **A loop without a failure fires what its machine counts.** -/
theorem counts_of_finish (fuel : Nat) (l : Loop ω τ) {t : Rig ω τ}
    (hfinish : l.finish host fuel = some (t, none)) :
    t.machine.cycles =
        l.rig.machine.cycles + (Activity.instruction.firings (l.firings host fuel)).length ∧
      t.machine.ticks =
        l.rig.machine.ticks + (Activity.timer.firings (l.firings host fuel)).length := by
  induction fuel generalizing l with
  | zero => cases hfinish
  | succ fuel ih =>
    unfold finish at hfinish
    by_cases hgo : l.rig.machine.goesOn
    · rw [if_pos hgo] at hfinish
      rcases hiterate : l.iterate host with ⟨l', _ | e⟩
      · simp only [hiterate] at hfinish
        have hfires := fires_iterate host l
        rw [hiterate] at hfires
        obtain ⟨hcycles, hticks, -⟩ := hfires.counts hgo
        obtain ⟨hcycles', hticks'⟩ := ih l' hfinish
        rw [firings_of_success host fuel hgo hiterate, Activity.firings_append,
          Activity.firings_append, List.length_append, List.length_append, hcycles', hticks',
          hcycles, hticks, ← Nat.add_assoc, ← Nat.add_assoc]
        exact ⟨rfl, rfl⟩
      · simp only [hiterate] at hfinish
        cases hfinish
    · rw [if_neg hgo] at hfinish
      cases hfinish
      rw [firings_of_stopped host (fuel + 1) hgo]
      exact l.rig.counts_halt host none

end

end Loop

end Chip8
