/-
Chip8.Proofs.Journal — the entries that a machine writes into its journal.

A report that lies below the threshold of the machine is dropped, and any
other one becomes the last entry (`record_eq_append`). The end of a machine
is reported by one line, after a crash report if an error ended it
(`Machine.endEntries`), and a machine that halts writes exactly this
(`halt_eq_of_live`): what `Rig.halt` does to everything else is told in
`Chip8.Proofs.Lifecycle`.
-/
import Chip8.Proofs.Lifecycle

namespace Chip8

/-! ## Entries -/

namespace Machine

variable {τ : Type} (m : Machine τ)

/-- What a report becomes in the journal: one entry, or none below the threshold. -/
def entries (time : τ) (r : Report τ) : Array (Entry τ) :=
  if m.threshold.rank ≤ r.level.rank then #[⟨time, r⟩] else #[]

/-- The entries about the end of a machine. -/
def endEntries (time : τ) (error : Option Failure) (elapsed : τ) : Array (Entry τ) :=
  match error with
  | some e =>
    m.entries time (.crashed e.kind e.message m.state?) ++
      m.entries time (.halted "crashed" m.cycles elapsed)
  | none => m.entries time (.halted "stopped" m.cycles elapsed)

/-- A machine with more entries in its journal. -/
def appendEntries (more : Array (Entry τ)) : Machine τ := { m with journal := m.journal ++ more }

@[simp] theorem appendEntries_empty : m.appendEntries #[] = m := by
  simp only [appendEntries, Array.append_empty]

theorem appendEntries_append (more later : Array (Entry τ)) :
    (m.appendEntries more).appendEntries later = m.appendEntries (more ++ later) := by
  simp only [appendEntries, Array.append_assoc]

/-- A machine that has ended, with an error or without; nothing is written about it yet. -/
def ended (error : Option Failure) : Machine τ := { m with phase := .halted m.state? error }

/-- The end of a machine leaves nothing to write about that was not there before. -/
theorem endEntries_ended (time : τ) (earlier error : Option Failure) (elapsed : τ) :
    (m.ended earlier).endEntries time error elapsed = m.endEntries time error elapsed := by
  cases error with
  | none => rfl
  | some e => rfl

end Machine

namespace Rig

/-! ## Reports -/

section

variable {ω τ : Type} (host : Host ω τ) (s : Rig ω τ)

/-- A report adds its entries to the journal and does nothing else. -/
theorem record_eq_append (r : Report τ) :
    s.record host r =
      { s with machine := s.machine.appendEntries (s.machine.entries (host.stamp s.world) r) } := by
  unfold record Machine.entries
  by_cases hkept : s.machine.threshold.rank ≤ r.level.rank
  · rw [if_pos hkept, if_pos hkept, Machine.appendEntries, Array.push_eq_append]
  · rw [if_neg hkept, if_neg hkept, Machine.appendEntries_empty]

/-- The report of an end adds its entries to the journal and does nothing else. -/
theorem reportEnd_eq_append (error : Option Failure) (elapsed : τ) :
    s.reportEnd host error elapsed =
      { s with
        machine := s.machine.appendEntries
          (s.machine.endEntries (host.stamp s.world) error elapsed) } := by
  cases error with
  | none => exact s.record_eq_append host _
  | some e =>
    show (s.record host _).record host _ = _
    rw [record_eq_append, record_eq_append, Machine.appendEntries_append]
    rfl

end

/-! ## Ends -/

section

variable {ω τ : Type} [OfNat τ 0] [Sub τ] (host : Host ω τ) (s : Rig ω τ)

/-- A running machine that halts reads the clock once and writes about its end. -/
theorem halt_eq_of_running {state : State} {startedAt : τ} {goesOn : Bool}
    (error : Option Failure) (h : s.machine.phase = .running state startedAt goesOn) :
    s.halt host error =
      ⟨(s.machine.ended error).appendEntries
          (s.machine.endEntries (host.stamp (host.clock s.world).2) error
            ((host.clock s.world).1 - startedAt)),
        (host.clock s.world).2⟩ := by
  have hstate : s.machine.state? = some state := by
    unfold Machine.state?
    rw [h]
  unfold halt
  rw [h, ← Machine.endEntries_ended, Machine.ended, hstate]
  exact reportEnd_eq_append host _ error _

/-- A machine that halts before it started reads no clock and writes about its end. -/
theorem halt_eq_of_booting (error : Option Failure) (h : s.machine.phase = .booting) :
    s.halt host error =
      ⟨(s.machine.ended error).appendEntries
          (s.machine.endEntries (host.stamp s.world) error 0),
        s.world⟩ := by
  have hstate : s.machine.state? = none := by
    unfold Machine.state?
    rw [h]
  unfold halt
  rw [h, ← Machine.endEntries_ended, Machine.ended, hstate]
  exact reportEnd_eq_append host _ error _

/-- However a machine halts that has not halted before, it writes about its end. -/
theorem halt_eq_of_live (error : Option Failure) (h : s.machine.status ≠ .halted) :
    ∃ elapsed world, s.halt host error =
      ⟨(s.machine.ended error).appendEntries
          (s.machine.endEntries (host.stamp world) error elapsed), world⟩ := by
  rcases s.machine.life_of_not_halted h with hl | ⟨g, hl⟩
  · exact ⟨_, _, s.halt_eq_of_booting host error (s.machine.phase_of_booting hl)⟩
  · obtain ⟨state, startedAt, hp⟩ := s.machine.phase_of_running hl
    exact ⟨_, _, s.halt_eq_of_running host error hp⟩

end

end Rig

end Chip8
