/-
Chip8.Proofs.Halting — a machine moves forward through its life, and ends
once.

`Status.rank` orders the three statuses. No change of a machine lowers the
rank (`kept_rank`), so no call does, and no history.

A halted machine is over (`Rig.Over`): start, cycle, tick and run refuse
to work, and together with stop and halt they leave the machine and its
world as they are. So the first halt decides the error, wherever it comes
from: a fault, the observer, or the end of a run.

The journal tells how often a machine has ended. `Machine.TellsEnd` is the
invariant: there is one report of the end if the machine has halted and
keeps such reports, and none otherwise. Only `Rig.halt` makes the report,
and it does so when it takes a machine that has not halted (`tellsEnd_halt`).
-/
import Chip8.Proofs.Journal
import Chip8.Proofs.Preservation
import Chip8.Proofs.Stopping

namespace Chip8

/-! ## Forward through the statuses -/

namespace Status

/-- How far a machine with this status has come in its life. -/
def rank : Status → Nat
  | .booting => 0
  | .running => 1
  | .halted => 2

theorem rank_le_halted (s : Status) : s.rank ≤ Status.halted.rank := by
  cases s <;> decide

theorem rank_le_running {s : Status} (h : s ≠ .halted) : s.rank ≤ Status.running.rank := by
  cases s with
  | booting | running => decide
  | halted => exact absurd rfl h

end Status

namespace Machine

variable {τ : Type}

/-- A machine that has come so far does not fall back. -/
theorem kept_rank (r : Nat) : Kept fun m : Machine τ => r ≤ m.status.rank where
  journal _ _ h := h
  stop m h := by simpa using h
  halt m _ h := h.trans m.status.rank_le_halted
  start m _ hbooting _ h := h.trans (Status.rank_le_running (by rw [hbooting]; decide))
  commit m _ after _ _ _ h := h.trans_eq (congrArg Status.rank (m.status_mapState _).symm)
  tick m h := h.trans_eq (congrArg Status.rank (m.status_mapState _).symm)

theorem rank_sample (r : Nat) : KeptBySamples fun m : Machine τ => r ≤ m.status.rank := by
  intro m codes _ _ h
  simpa using h

theorem rank_started (r : Nat) : KeptByBoots fun m : Machine τ => r ≤ m.status.rank := by
  intro m _ hlive _ h
  exact h.trans (Status.rank_le_running hlive)

end Machine

/-! ## Halted machines -/

section

variable {ω τ : Type} [OfNat τ 0] [OfNat τ 1] [OfNat τ 4] [Add τ] [Sub τ] [Mul τ] [Div τ]
  [LE τ] [DecidableLE τ] [HasRates τ]

/-- No call moves this rig any more, and all work is refused. -/
structure Rig.Over (host : Host ω τ) (t : Rig ω τ) : Prop where
  boot : t.boot host = (t, some (.fault (.halted .boot)))
  cycle : t.cycle host = (t, some (.fault (.halted .work)))
  tick : t.tick host = (t, some (.fault (.halted .work)))
  run : ∀ fuel, t.run host fuel = some (t, some (.fault (.halted .work)))
  runDetached : ∀ fuel, t.runDetached host fuel = some t
  stop : t.machine.stop = t.machine
  halt : ∀ error, t.halt host error = t

/-- Halted machines are over, and so is the world that they have been in. -/
theorem Rig.over_of_halted (host : Host ω τ) {t : Rig ω τ} (h : t.machine.status = .halted) :
    t.Over host := by
  obtain ⟨error, hlife⟩ := t.machine.life_of_halted h
  obtain ⟨last, hphase⟩ := t.machine.phase_of_halted hlife
  have hready := t.ready_of_halted host hlife
  have hrun := fun fuel => t.run_of_not_ready host fuel hready
  refine
    { boot := t.boot_of_halted host h
      cycle := t.cycle_of_not_ready host hready
      tick := t.tick_of_not_ready host hready
      run := hrun
      runDetached := fun fuel => ?_
      stop := ?_
      halt := fun later => t.halt_of_halted host later hlife }
  · unfold runDetached
    rw [hrun]
    rfl
  · unfold Machine.stop
    rw [hphase]

/-- A run that ends without a failure has halted its machine. -/
theorem Rig.halted_of_run (host : Host ω τ) {t u : Rig ω τ} {fuel : Nat}
    (h : t.run host fuel = some (u, none)) : u.machine.status = .halted := by
  rcases hready : t.ready host with ⟨v, _ | e⟩
  · rw [t.run_of_ready host fuel hready] at h
    by_cases hrates : v.machine.config.hasRates
    · rw [if_pos hrates] at h
      exact status_of_finish host fuel h
    · rw [if_neg hrates] at h
      cases h
  · rw [t.run_of_not_ready host fuel hready] at h
    cases h

end

/-! ## Reports of an end -/

/-- Whether a report is about the end of a machine. -/
def Report.isEnd {τ : Type} : Report τ → Bool
  | .halted .. => true
  | _ => false

/-- The number of entries about the end of a machine. -/
def endings {τ : Type} (journal : Array (Entry τ)) : Nat :=
  journal.countP fun entry => entry.report.isEnd

@[simp] theorem endings_append {τ : Type} (journal more : Array (Entry τ)) :
    endings (journal ++ more) = endings journal + endings more :=
  Array.countP_append

namespace Machine

variable {τ : Type} (m : Machine τ)

/-- Whether a machine keeps reports of its end. -/
def keepsEnd : Bool := m.threshold.rank ≤ Level.info.rank

/-- A machine has reported its end once if it has halted and keeps such reports, and never
otherwise. -/
def TellsEnd : Prop :=
  endings m.journal = if m.status = .halted ∧ m.keepsEnd then 1 else 0

/-- A report that is not about the end adds none to those that are. -/
theorem endings_entries {r : Report τ} (time : τ) (h : r.isEnd = false) :
    endings (m.entries time r) = 0 := by
  unfold entries
  by_cases hkept : m.threshold.rank ≤ r.level.rank
  · rw [if_pos hkept]
    simp [endings, h]
  · rw [if_neg hkept]
    rfl

/-- The end of a machine is reported once, with an error or without. -/
theorem endings_endEntries (time : τ) (error : Option Failure) (elapsed : τ) :
    endings (m.endEntries time error elapsed) = if m.keepsEnd then 1 else 0 := by
  have hend : ∀ reason, endings (m.entries time (.halted reason m.cycles elapsed)) =
      if m.keepsEnd then 1 else 0 := by
    intro reason
    unfold entries
    by_cases hkept : m.threshold.rank ≤ Level.info.rank
    · simp [endings, keepsEnd, hkept, Report.level, Report.isEnd]
    · simp [endings, keepsEnd, hkept, Report.level]
  cases error with
  | none => exact hend _
  | some e =>
    show endings (_ ++ _) = _
    rw [endings_append, endings_entries _ _ rfl, hend, Nat.zero_add]

variable {m}

/-- What a machine has reported of its end depends on its journal and on its status. -/
theorem TellsEnd.congr {m' : Machine τ} (h : m.TellsEnd) (hjournal : m'.journal = m.journal)
    (hthreshold : m'.threshold = m.threshold)
    (hstatus : m'.status = .halted ↔ m.status = .halted) : m'.TellsEnd := by
  unfold TellsEnd keepsEnd
  rw [hjournal, hthreshold]
  simp only [hstatus]
  exact h

theorem TellsEnd.mapState (h : m.TellsEnd) (f : State → State) : (m.mapState f).TellsEnd := by
  obtain ⟨phase, hframe⟩ := m.mapState_frame f
  have hstatus := m.status_mapState f
  rw [hframe] at hstatus ⊢
  exact h.congr rfl rfl (by rw [hstatus])

theorem TellsEnd.stop (h : m.TellsEnd) : m.stop.TellsEnd := by
  obtain ⟨phase, hframe⟩ := m.stop_frame
  have hstatus := m.status_stop
  rw [hframe] at hstatus ⊢
  exact h.congr rfl rfl (by rw [hstatus])

theorem TellsEnd.sample (h : m.TellsEnd) (codes : List Int) : (m.sample codes).TellsEnd := by
  obtain ⟨phase, hframe⟩ := m.sample_frame codes
  have hstatus := m.status_sample codes
  rw [hframe] at hstatus ⊢
  exact h.congr rfl rfl (by rw [hstatus])

/-- A machine that starts has not reported an end. -/
theorem TellsEnd.started (h : m.TellsEnd) (hlive : m.status ≠ .halted) (startedAt : τ) :
    (m.started startedAt).TellsEnd :=
  h.congr rfl rfl ⟨fun hrunning => Status.noConfusion hrunning, fun hhalted => absurd hhalted hlive⟩

end Machine

namespace Rig

section

variable {ω τ : Type} (host : Host ω τ) {s : Rig ω τ}

theorem tellsEnd_record {r : Report τ} (hr : r.isEnd = false) (h : s.machine.TellsEnd) :
    (s.record host r).machine.TellsEnd := by
  rw [record_eq_append]
  show endings (_ ++ _) = _
  rw [endings_append, Machine.endings_entries _ _ hr, Nat.add_zero]
  exact h

theorem tellsEnd_boot [HasRates τ] (hlive : s.machine.status ≠ .halted)
    (hr : s.machine.refusal = none) (h : s.machine.TellsEnd) :
    (s.boot host).1.machine.TellsEnd := by
  have hstarted := h.started hlive (host.clock s.world).1
  rw [s.boot_eq_of_accepted host hlive hr]
  by_cases hrates : s.machine.config.hasRates
  · rw [if_pos hrates]
    exact tellsEnd_record host rfl hstarted
  · rw [if_neg hrates]
    exact hstarted

variable [OfNat τ 0] [Sub τ]

/-- Halting reports the end of a machine that had none, and adds nothing to one that had. -/
theorem tellsEnd_halt (error : Option Failure) (h : s.machine.TellsEnd) :
    (s.halt host error).machine.TellsEnd := by
  by_cases hhalted : s.machine.status = .halted
  · obtain ⟨earlier, hlife⟩ := s.machine.life_of_halted hhalted
    rw [s.halt_of_halted host error hlife]
    exact h
  · obtain ⟨elapsed, world, hhalt⟩ := s.halt_eq_of_live host error hhalted
    have hnone : endings s.machine.journal = 0 := by
      unfold Machine.TellsEnd at h
      rw [h, if_neg fun hboth => hhalted hboth.1]
    rw [hhalt]
    show endings (s.machine.journal ++ _) =
      if Status.halted = .halted ∧ s.machine.keepsEnd then 1 else 0
    rw [endings_append, hnone, Machine.endings_endEntries, Nat.zero_add]
    simp only [true_and]

theorem tellsEnd_act (a : Action ω) (h : s.machine.TellsEnd) :
    (s.act host a).machine.TellsEnd := by
  cases a with
  | affect f => exact h
  | stop => exact h.stop
  | halt error => exact tellsEnd_halt host error h
  | trace =>
    unfold act Machine.lastStep?
    cases s.machine.previous with
    | none => exact h
    | some i =>
      cases s.machine.state? with
      | none => exact h
      | some state => exact tellsEnd_record host rfl h

variable [HasRates τ]

/-- What a machine has reported of its end stays right, whatever happens to it. -/
theorem kept_tellsEnd : Kept host fun s => s.machine.TellsEnd where
  clock _ h := h
  sleep _ _ h := h
  stop _ h := h.stop
  halt _ error h := tellsEnd_halt host error h
  start s hbooting hr h := tellsEnd_boot host (by rw [hbooting]; decide) hr h
  commit s _ after _ _ _ h := (h.mapState fun _ => after).congr rfl rfl Iff.rfl
  notify s i h :=
    s.notify_preserves host (P := fun u => u.machine.TellsEnd) i h fun _ a _ => tellsEnd_act host a
  tick s _ hstate h := by
    rw [s.lower_eq host hstate]
    exact (h.mapState State.tick).congr rfl rfl Iff.rfl

omit [OfNat τ 0] [Sub τ] [HasRates τ] in
theorem tellsEnd_samples : KeptBySamples host fun s => s.machine.TellsEnd := by
  intro s _ _ h
  dsimp only
  exact h.sample (host.pressedKeys s.world)

end

variable {ω τ : Type} [OfNat τ 0] [OfNat τ 1] [OfNat τ 4] [Add τ] [Sub τ] [Mul τ] [Div τ]
  [LE τ] [DecidableLE τ] [HasRates τ]

/-- No history leads a machine back. -/
theorem rank_afterAll (host : Host ω τ) {s t : Rig ω τ} {calls : List (Call ω)}
    (h : s.afterAll host calls = some t) : s.machine.status.rank ≤ t.machine.status.rank :=
  (Machine.kept_rank _).afterAll host (Machine.rank_sample _) (fun _ => Machine.rank_started _)
    le_rfl h

/-- **The life of a machine**, after any history of calls since it was new, whatever its observer
asks for in between.

Its status only moves forward from there. It goes on only while it runs, a running machine has a
state, and a run that ends without a failure has halted it. Once it has halted no call changes it
or its world, and all work is refused; whatever halts a machine a second time changes nothing, so
the first error is kept. Its end has been reported once if it has halted and keeps such reports,
and never otherwise. -/
theorem life_of_history (host : Host ω τ) {program : List UInt8} {config : Config τ}
    {threshold : Level} {world : ω} {calls : List (Call ω)} {t : Rig ω τ}
    (hcalls : afterAll host ⟨Machine.new program config threshold, world⟩ calls = some t) :
    (∀ more u, t.afterAll host more = some u →
      t.machine.status.rank ≤ u.machine.status.rank) ∧
    (t.machine.goesOn = true → t.machine.status = .running) ∧
    (t.machine.status = .running → ∃ state, t.machine.state? = some state) ∧
    (∀ fuel u, t.run host fuel = some (u, none) → u.machine.status = .halted) ∧
    (t.machine.status = .halted → t.Over host) ∧
    (∀ (u : Rig ω τ) (first later : Option Failure), u.machine.status ≠ .halted →
      (u.halt host first).machine.error? = first ∧
      (u.halt host first).halt host later = u.halt host first) ∧
    endings t.machine.journal =
      if t.machine.status = .halted ∧ threshold.rank ≤ Level.info.rank then 1 else 0 := by
  refine ⟨fun more u hmore => rank_afterAll host hmore, fun hgo => ?_, fun hrunning => ?_,
    fun fuel u hrun => halted_of_run host hrun, over_of_halted host, fun u first later hlive => ?_,
    ?_⟩
  · exact t.machine.status_of_running (t.machine.running_of_goesOn hgo)
  · obtain ⟨g, hg⟩ := t.machine.life_of_running hrunning
    exact t.machine.state?_of_running hg
  · have hhalted := u.status_halt host first
    refine ⟨?_, (over_of_halted host hhalted).halt later⟩
    rw [Machine.error?_eq, life_halt]
    rcases u.machine.life_of_not_halted hlive with hl | ⟨g, hl⟩
    · rw [hl]
      rfl
    · rw [hl]
      rfl
  · have hmade : t.machine.Made program config threshold :=
      (Machine.kept_made program config threshold).afterAll host
        (Machine.made_sample program config threshold)
        (fun _ => Machine.made_started program config threshold) ⟨rfl, rfl, rfl⟩ hcalls
    have hnew : (Machine.new program config threshold).TellsEnd := rfl
    have htells : t.machine.TellsEnd :=
      (kept_tellsEnd host).afterAll (tellsEnd_samples host)
        (fun _ u hlive hr hu => tellsEnd_boot host hlive hr hu) (fun _ _ _ hu => hu) hnew hcalls
    rw [← hmade.2.2]
    simpa [Machine.TellsEnd, Machine.keepsEnd] using htells

end Rig

/-- A host whose observer stops the machine, halts it for a reason, halts it again and fails. -/
def Host.halting : Host Rat Rat :=
  { Host.exact with
    observer := fun _ _ _ =>
      ([.stop, .halt (some (.external "Done" "enough")), .halt none],
        some (.external "Late" "too much")) }

/-- The first reason is kept and the end reported once, although the run fails and the machine is
halted from outside afterwards. -/
theorem Rig.halted_once :
    ∃ t, jumping.afterAll Host.halting [.run 5, .stop, .halt none, .run 5] = some t ∧
      t.machine.error? = some (.external "Done" "enough") ∧ t.Over Host.halting ∧
      endings t.machine.journal = 1 := by
  have hend : (jumping.afterAll Host.halting [.run 5, .stop, .halt none, .run 5]).map
      (fun t => (t.machine.status, t.machine.error?)) =
        some (.halted, some (.external "Done" "enough")) := by
    decide +kernel
  obtain ⟨t, hcalls, ht⟩ := Option.map_eq_some_iff.mp hend
  obtain ⟨hstatus, herror⟩ := Prod.mk.inj ht
  obtain ⟨-, -, -, -, hover, -, hendings⟩ := life_of_history Host.halting hcalls
  refine ⟨t, hcalls, herror, hover hstatus, ?_⟩
  rw [hendings, if_pos ⟨hstatus, by decide⟩]

end Chip8
