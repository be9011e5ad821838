/-
Chip8.Proofs.History — calls on a machine, in any order.

A `Call` is whatever can be asked of a machine in its world, or a change
of the world between two calls. `Rig.after` is the rig that one call
leaves; a failure of the call is handed to the caller and changes nothing
more. A history is a list of calls, `Rig.afterAll` the rig that it leaves.
A run that is not over after its iterations leaves none, and neither does
a history with such a run in it. `Rig.answers` keeps the failures as well.

`afterAll_preserves` is the induction on histories: what every call of a
history keeps holds at its end.
-/
import Chip8.Machine.Run

namespace Chip8

/-- A call on a machine. -/
inductive Call (ω : Type) where
  | boot
  | cycle
  | tick
  | stop
  | halt (error : Option Failure)
  /-- Run for at most so many iterations. -/
  | run (fuel : Nat)
  /-- The same on a thread, until that has ended. -/
  | runDetached (fuel : Nat)
  /-- Change the world. -/
  | affect (f : ω → ω)

namespace Rig

variable {ω τ : Type} [OfNat τ 0] [OfNat τ 1] [OfNat τ 4] [Add τ] [Sub τ] [Mul τ] [Div τ]
  [LE τ] [DecidableLE τ] [HasRates τ] (host : Host ω τ)

/-- The rig that a call leaves. -/
def after (s : Rig ω τ) : Call ω → Option (Rig ω τ)
  | .boot => some (s.boot host).1
  | .cycle => some (s.cycle host).1
  | .tick => some (s.tick host).1
  | .stop => some { s with machine := s.machine.stop }
  | .halt error => some (s.halt host error)
  | .run fuel => (s.run host fuel).map (·.1)
  | .runDetached fuel => s.runDetached host fuel
  | .affect f => some { s with world := f s.world }

/-- The rig that a history leaves. -/
def afterAll (s : Rig ω τ) : List (Call ω) → Option (Rig ω τ)
  | [] => some s
  | c :: rest => (s.after host c).bind fun t => t.afterAll rest

/-- The first call of a history leaves a rig, and the rest goes on from there. -/
theorem afterAll_cons_eq_some {s t : Rig ω τ} {c : Call ω} {rest : List (Call ω)} :
    s.afterAll host (c :: rest) = some t ↔
      ∃ u, s.after host c = some u ∧ u.afterAll host rest = some t :=
  Option.bind_eq_some_iff

/-- A history goes on where its first part has led to. -/
theorem afterAll_append (s : Rig ω τ) (calls more : List (Call ω)) :
    s.afterAll host (calls ++ more) =
      (s.afterAll host calls).bind fun t => t.afterAll host more := by
  induction calls generalizing s with
  | nil => rfl
  | cons c rest ih =>
    show (s.after host c).bind _ = ((s.after host c).bind _).bind _
    rw [Option.bind_assoc]
    exact Option.bind_congr fun u _ => ih u

/-- **Induction on histories**: what every call keeps, all of them together keep. -/
theorem afterAll_preserves {P : Rig ω τ → Prop} (calls : List (Call ω))
    (hstep : ∀ c ∈ calls, ∀ s t, P s → s.after host c = some t → P t) {s t : Rig ω τ} (hs : P s)
    (h : s.afterAll host calls = some t) : P t := by
  induction calls generalizing s with
  | nil =>
    cases h
    exact hs
  | cons c rest ih =>
    obtain ⟨u, hu, ht⟩ := (afterAll_cons_eq_some host).mp h
    have hPu := hstep c List.mem_cons_self s u hs hu
    exact ih (fun c' hc' => hstep c' (List.mem_cons_of_mem c hc')) hPu ht

/-! ## Answers -/

/-- The rig that a call leaves, and the failure that it hands to its caller. -/
def answer (s : Rig ω τ) : Call ω → Option (Rig ω τ × Option Failure)
  | .boot => some (s.boot host)
  | .cycle => some (s.cycle host)
  | .tick => some (s.tick host)
  | .stop => some ({ s with machine := s.machine.stop }, none)
  | .halt error => some (s.halt host error, none)
  | .run fuel => s.run host fuel
  | .runDetached fuel => (s.runDetached host fuel).map fun t => (t, none)
  | .affect f => some ({ s with world := f s.world }, none)

/-- The rig that a history leaves, and the failure of each of its calls. -/
def answers (s : Rig ω τ) : List (Call ω) → Option (Rig ω τ × List (Option Failure))
  | [] => some (s, [])
  | c :: rest =>
    (s.answer host c).bind fun first =>
      (first.1.answers rest).map fun later => (later.1, first.2 :: later.2)

theorem map_answer (s : Rig ω τ) (c : Call ω) :
    (s.answer host c).map (·.1) = s.after host c := by
  cases c with
  | runDetached fuel =>
    show ((s.runDetached host fuel).map _).map _ = s.runDetached host fuel
    rw [Option.map_map]
    exact Option.map_id'
  | boot | cycle | tick | stop | halt error | run fuel | affect f => rfl

/-- A history leaves the same rig whether its failures are kept or not. -/
theorem map_answers (s : Rig ω τ) (calls : List (Call ω)) :
    (s.answers host calls).map (·.1) = s.afterAll host calls := by
  induction calls generalizing s with
  | nil => rfl
  | cons c rest ih =>
    unfold answers afterAll
    rw [← s.map_answer host c, Option.map_bind, Option.bind_map]
    refine Option.bind_congr fun first _ => ?_
    show ((first.1.answers host rest).map _).map _ = first.1.afterAll host rest
    rw [Option.map_map, ← ih]
    rfl

end Rig

end Chip8
