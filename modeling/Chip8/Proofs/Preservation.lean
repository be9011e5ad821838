/-
Chip8.Proofs.Preservation — what every call on a machine keeps.

`Rig.Kept` lists the changes that a machine and its world can go through,
one field each: the clock is read, a sleep passes, a stop is requested, the
machine halts, it starts, an instruction is carried out, the observer acts,
a tick lowers the timers and hands the picture over. Sampling the keys,
starting again and changes of the world from outside are kept apart,
because a property may well be about them. A property that survives these
changes survives every call (`Rig.Kept.after`), loops included, and so
every history (`Rig.Kept.afterAll`).

`Machine.Kept` is the same for properties of the machine alone, whatever
its journal holds; `Machine.Kept.rig` makes the one from the other.

`after_other` does without samples: of the calls that are no boot and
no cycle, only a run samples keys, and it leaves a halted machine behind
if it does (`run_halted_or_ready`).
-/
import Chip8.Proofs.History
import Chip8.Proofs.Lifecycle

namespace Chip8

/-! ## Changes of a machine in its world -/

namespace Rig

section

variable {ω τ : Type} [OfNat τ 0] [Sub τ] [HasRates τ]

/-- A property of rigs that all changes but samples, further starts and changes from outside
keep. -/
structure Kept (host : Host ω τ) (P : Rig ω τ → Prop) : Prop where
  clock : ∀ s, P s → P (s.readClock host).2
  sleep : ∀ s pause, P s → P { s with world := (host.sleep pause s.world).1 }
  stop : ∀ s, P s → P { s with machine := s.machine.stop }
  halt : ∀ s error, P s → P (s.halt host error)
  start : ∀ s, s.machine.status = .booting → s.machine.refusal = none → P s → P (s.boot host).1
  commit : ∀ s state after word, s.machine.state? = some state → state.step = .ok (after, word) →
    P s → P { s with machine := s.machine.commit ⟨word⟩ after }
  notify : ∀ s i, P s → P (s.notify host i).1
  tick : ∀ s state, s.machine.state? = some state → P s → P (s.lower host).1

/-- A property of rigs that samples of the keys keep. -/
def KeptBySamples (host : Host ω τ) (P : Rig ω τ → Prop) : Prop :=
  ∀ s state, s.machine.state? = some state → P s →
    P { s with machine := s.machine.sample (host.pressedKeys s.world) }

/-- A property of rigs that further starts keep. -/
def KeptByBoots (host : Host ω τ) (P : Rig ω τ → Prop) : Prop :=
  ∀ s, s.machine.status ≠ .halted → s.machine.refusal = none → P s → P (s.boot host).1

/-- A property of rigs that a change of the world from outside keeps. -/
def KeptByAffect (P : Rig ω τ → Prop) (f : ω → ω) : Prop :=
  ∀ s, P s → P { s with world := f s.world }

end

namespace Kept

/-! ## Calls without a loop -/

section

variable {ω τ : Type} [OfNat τ 0] [Sub τ] [HasRates τ] {host : Host ω τ} {P : Rig ω τ → Prop}
  (hP : Kept host P)

include hP

omit [OfNat τ 0] [Sub τ] hP in
/-- A boot that starts nothing leaves the rig as it is. -/
theorem boot {s : Rig ω τ} (h : P s)
    (hstart : s.machine.status ≠ .halted → s.machine.refusal = none → P (s.boot host).1) :
    P (s.boot host).1 := by
  by_cases hlive : s.machine.status = .halted
  · rw [s.boot_of_halted host hlive]
    exact h
  · cases hr : s.machine.refusal with
    | some e =>
      rw [s.boot_of_refusal host hlive hr]
      exact h
    | none => exact hstart hlive hr

omit [OfNat τ 0] [Sub τ] hP in
/-- Only a machine that has not started is changed by being made ready. -/
theorem readied {s u : Rig ω τ} {failure : Option Failure} (h : P s)
    (hstart : s.machine.status = .booting → s.machine.refusal = none → P (s.boot host).1)
    (hready : s.ready host = (u, failure)) : P u := by
  obtain rfl : (s.ready host).1 = u := congrArg Prod.fst hready
  cases hlife : s.machine.life with
  | booting =>
    rw [s.ready_of_booting host hlife]
    exact boot h fun _ => hstart (s.machine.status_of_booting hlife)
  | running g =>
    rw [s.ready_of_running host hlife]
    exact h
  | halted error =>
    rw [s.ready_of_halted host hlife]
    exact h

theorem ready {s u : Rig ω τ} {failure : Option Failure} (h : P s)
    (hready : s.ready host = (u, failure)) : P u :=
  readied h (fun hbooting hr => hP.start s hbooting hr h) hready

theorem ticked {s : Rig ω τ} (h : P s) : P (s.tick host).1 := by
  rcases hready : s.ready host with ⟨u, _ | e⟩
  · obtain ⟨state, hstate, -⟩ := s.tick_of_ready host hready
    rw [s.tick_eq_lower host hready]
    exact hP.tick u state hstate (hP.ready h hready)
  · rw [s.tick_of_not_ready host hready]
    exact hP.ready h hready

/-- What a cycle keeps from its sample on. -/
theorem cycle_of_sample {s u : Rig ω τ} (hready : s.ready host = (u, none))
    (h : P { u with machine := u.machine.sample (host.pressedKeys u.world) }) :
    P (s.cycle host).1 := by
  obtain ⟨seen, hseen, -⟩ := s.fetches?_of_ready host hready
  obtain ⟨m, hm⟩ : ∃ m, u.machine.sample (host.pressedKeys u.world) = m := ⟨_, rfl⟩
  rw [hm] at h hseen
  have hcycle := s.cycle_of_ready host hready hm hseen
  cases hstep : seen.step with
  | error f =>
    rw [hstep] at hcycle
    rw [hcycle]
    exact hP.halt ⟨m, u.world⟩ (some (.fault f)) h
  | ok result =>
    obtain ⟨after, word⟩ := result
    rw [hstep] at hcycle
    rw [hcycle]
    exact hP.notify _ ⟨word⟩ (hP.commit ⟨m, u.world⟩ seen after word hseen hstep h)

theorem cycle (hsample : KeptBySamples host P) {s : Rig ω τ} (h : P s) : P (s.cycle host).1 := by
  rcases hready : s.ready host with ⟨u, _ | e⟩
  · obtain ⟨g, hg⟩ := s.running_of_ready host hready
    obtain ⟨state, hstate⟩ := u.machine.state?_of_running hg
    exact hP.cycle_of_sample hready (hsample u state hstate (hP.ready h hready))
  · rw [s.cycle_of_not_ready host hready]
    exact hP.ready h hready

theorem idle {l : Loop ω τ} (h : P l.rig) : P (l.idle host).1.rig := by
  have hslept := hP.sleep l.rig l.rig.machine.config.pause h
  unfold Loop.idle
  rcases hsleep : host.sleep l.rig.machine.config.pause l.rig.world with ⟨world, failure | stops⟩
  · rw [hsleep] at hslept
    exact hslept
  · rw [hsleep] at hslept
    cases stops with
    | false => exact hslept
    | true => exact hP.stop _ hslept

end

/-! ## Loops -/

section

variable {ω τ : Type} [OfNat τ 0] [OfNat τ 1] [OfNat τ 4] [Add τ] [Sub τ] [Mul τ] [Div τ] [LE τ]
  [DecidableLE τ] [HasRates τ] {host : Host ω τ} {P : Rig ω τ → Prop} (hP : Kept host P)
  (hsample : KeptBySamples host P)

include hP

theorem fireTimer (now : τ) {l : Loop ω τ} (h : P l.rig) : P (l.fireTimer host now).1.rig := by
  unfold Loop.fireTimer
  by_cases hdue : l.rig.machine.goesOn && Pace.isDue l.lastTimer
      l.rig.machine.config.timerPeriod now
  · rw [if_pos hdue]
    exact hP.ticked h
  · rw [if_neg hdue]
    exact h

include hsample

theorem fireInstruction (now : τ) {l : Loop ω τ} (h : P l.rig) :
    P (l.fireInstruction host now).1.rig := by
  unfold Loop.fireInstruction
  by_cases hdue : Pace.isDue l.lastInstruction l.rig.machine.config.instructionPeriod now
  · rw [if_pos hdue]
    exact hP.cycle hsample h
  · rw [if_neg hdue]
    exact h

/-- What one iteration keeps. -/
theorem iterate {l : Loop ω τ} (h : P l.rig) : P (l.iterate host).1.rig := by
  have hread : P (l.rig.readClock host).2 := hP.clock l.rig h
  have hinstruction := hP.fireInstruction hsample (l.rig.readClock host).1
    (l := { l with rig := (l.rig.readClock host).2 }) hread
  have hiterates := Loop.iterates_iterate host l
  generalize l.iterate host = r at hiterates ⊢
  cases hiterates with
  | instructionFailed hfire =>
    rw [hfire] at hinstruction
    exact hinstruction
  | timerFailed hfire htick | active hfire htick _ =>
    rw [hfire] at hinstruction
    have htimer := hP.fireTimer (l.rig.readClock host).1 hinstruction
    rw [htick] at htimer
    exact htimer
  | idle hfire htick hslept =>
    rw [hfire] at hinstruction
    have htimer := hP.fireTimer (l.rig.readClock host).1 hinstruction
    rw [htick] at htimer
    rw [← hslept]
    exact hP.idle htimer

/-- What a loop keeps, by induction on its iterations. -/
theorem finish (fuel : Nat) {l : Loop ω τ} {t : Rig ω τ} {failure : Option Failure}
    (h : P l.rig) (hfinish : l.finish host fuel = some (t, failure)) : P t := by
  induction fuel generalizing l with
  | zero => cases hfinish
  | succ fuel ih =>
    unfold Loop.finish at hfinish
    by_cases hgo : l.rig.machine.goesOn
    · rw [if_pos hgo] at hfinish
      have hiterate := hP.iterate hsample h
      rcases hl : l.iterate host with ⟨l', _ | e⟩
      · rw [hl] at hiterate
        simp only [hl] at hfinish
        exact ih hiterate hfinish
      · rw [hl] at hiterate
        simp only [hl] at hfinish
        cases hfinish
        exact hP.halt _ _ hiterate
    · rw [if_neg hgo] at hfinish
      cases hfinish
      exact hP.halt _ _ h

theorem run {s t : Rig ω τ} {fuel : Nat} {failure : Option Failure} (h : P s)
    (hrun : s.run host fuel = some (t, failure)) : P t := by
  rcases hready : s.ready host with ⟨u, _ | e⟩
  · have hu := hP.ready h hready
    rw [s.run_of_ready host fuel hready] at hrun
    by_cases hrates : u.machine.config.hasRates
    · rw [if_pos hrates] at hrun
      exact hP.finish hsample fuel (l := u.enterLoop host) (hP.clock u hu) hrun
    · rw [if_neg hrates] at hrun
      cases hrun
      exact hu
  · rw [s.run_of_not_ready host fuel hready] at hrun
    cases hrun
    exact hP.ready h hready

/-! ## All calls -/

/-- **What one call keeps**. -/
theorem after {s t : Rig ω τ} {c : Call ω} (hboot : c = .boot → KeptByBoots host P)
    (haffect : ∀ f, c = .affect f → KeptByAffect P f) (h : P s) (hc : s.after host c = some t) :
    P t := by
  cases c with
  | boot =>
    cases hc
    exact boot h fun hlive hr => hboot rfl s hlive hr h
  | cycle =>
    cases hc
    exact hP.cycle hsample h
  | tick =>
    cases hc
    exact hP.ticked h
  | stop =>
    cases hc
    exact hP.stop s h
  | halt error =>
    cases hc
    exact hP.halt s error h
  | run fuel =>
    obtain ⟨⟨u, failure⟩, hrun, rfl⟩ := Option.map_eq_some_iff.mp hc
    exact hP.run hsample h hrun
  | runDetached fuel =>
    obtain ⟨⟨u, failure⟩, hrun, rfl⟩ := Option.map_eq_some_iff.mp hc
    exact hP.run hsample h hrun
  | affect f =>
    cases hc
    exact haffect f rfl s h

/-- **What a history keeps**. -/
theorem afterAll {s t : Rig ω τ} {calls : List (Call ω)}
    (hboot : Call.boot ∈ calls → KeptByBoots host P)
    (haffect : ∀ f, Call.affect f ∈ calls → KeptByAffect P f) (h : P s)
    (hcalls : s.afterAll host calls = some t) : P t := by
  refine Rig.afterAll_preserves host calls ?_ h hcalls
  intro c hc u v hu hafter
  exact hP.after hsample (fun heq => hboot (heq ▸ hc)) (fun f heq => haffect f (heq ▸ hc)) hu hafter

omit hsample in
/-- What a call keeps that is no boot and no cycle, unless it halts the machine. -/
theorem after_other {s t : Rig ω τ} {c : Call ω} (hboot : c ≠ .boot) (hcycle : c ≠ .cycle)
    (haffect : ∀ f, c = .affect f → KeptByAffect P f) (h : P s) (hc : s.after host c = some t) :
    t.machine.status = .halted ∨ P t := by
  have hrun : ∀ {fuel : Nat} {failure : Option Failure},
      s.run host fuel = some (t, failure) → t.machine.status = .halted ∨ P t := by
    intro fuel failure hrun
    rcases s.run_halted_or_ready host _ hrun with hhalted | ⟨failure', hready⟩
    · exact .inl hhalted
    · exact .inr (hP.ready h hready)
  cases c with
  | boot => exact absurd rfl hboot
  | cycle => exact absurd rfl hcycle
  | tick =>
    cases hc
    exact .inr (hP.ticked h)
  | stop =>
    cases hc
    exact .inr (hP.stop s h)
  | halt error =>
    cases hc
    exact .inl (s.status_halt host error)
  | run fuel =>
    obtain ⟨⟨u, failure⟩, hu, rfl⟩ := Option.map_eq_some_iff.mp hc
    exact hrun hu
  | runDetached fuel =>
    obtain ⟨⟨u, failure⟩, hu, rfl⟩ := Option.map_eq_some_iff.mp hc
    exact hrun hu
  | affect f =>
    cases hc
    exact .inr (haffect f rfl s h)

end

end Kept

end Rig

/-! ## Changes of a machine -/

/-- A property of machines that all changes but samples and further starts keep. -/
structure Machine.Kept {τ : Type} (P : Machine τ → Prop) : Prop where
  journal : ∀ m journal, P m → P { m with journal := journal }
  stop : ∀ m, P m → P m.stop
  halt : ∀ m error, P m → P { m with phase := .halted m.state? error }
  start : ∀ m startedAt, m.status = .booting → m.refusal = none → P m → P (m.started startedAt)
  commit : ∀ m state after word, m.state? = some state → state.step = .ok (after, word) →
    P m → P (m.commit ⟨word⟩ after)
  tick : ∀ m, P m → P { m.mapState State.tick with ticks := m.ticks + 1 }

/-- A property of machines that samples of the keys keep. -/
def Machine.KeptBySamples {τ : Type} (P : Machine τ → Prop) : Prop :=
  ∀ m codes state, m.state? = some state → P m → P (m.sample codes)

/-- A property of machines that further starts keep. -/
def Machine.KeptByBoots {τ : Type} (P : Machine τ → Prop) : Prop :=
  ∀ m startedAt, m.status ≠ .halted → m.refusal = none → P m → P (m.started startedAt)

namespace Machine.Kept

variable {ω τ : Type} {P : Machine τ → Prop} (hP : Machine.Kept P) (host : Host ω τ)

include hP

theorem record (r : Report τ) {s : Rig ω τ} (h : P s.machine) : P (s.record host r).machine := by
  obtain ⟨journal, hrecord⟩ := s.record_eq host r
  rw [hrecord]
  exact hP.journal s.machine journal h

section

variable [OfNat τ 0] [Sub τ]

theorem halted (error : Option Failure) {s : Rig ω τ} (h : P s.machine) :
    P (s.halt host error).machine := by
  cases hlife : s.machine.life with
  | booting =>
    obtain ⟨journal, hhalt⟩ := s.halt_of_booting host error hlife
    have hstate := s.machine.state?_of_booting (s.machine.status_of_booting hlife)
    rw [hhalt, ← hstate]
    exact hP.journal _ journal (hP.halt s.machine error h)
  | running g =>
    obtain ⟨journal, hhalt⟩ := s.halt_of_running host error hlife
    rw [hhalt]
    exact hP.journal _ journal (hP.halt s.machine error h)
  | halted earlier =>
    rw [s.halt_of_halted host error hlife]
    exact h

theorem act (a : Action ω) {s : Rig ω τ} (h : P s.machine) : P (s.act host a).machine := by
  cases a with
  | affect f => exact h
  | stop => exact hP.stop s.machine h
  | halt error => exact hP.halted host error h
  | trace =>
    unfold Rig.act
    cases s.machine.lastStep? with
    | none => exact h
    | some report => exact hP.record host report h

end

section

variable [HasRates τ]

omit hP in
theorem booted (hjournal : ∀ m journal, P m → P { m with journal := journal }) {s : Rig ω τ}
    (hlive : s.machine.status ≠ .halted) (hr : s.machine.refusal = none)
    (hstart : ∀ startedAt, P (s.machine.started startedAt)) : P (s.boot host).1.machine := by
  obtain ⟨journal, hboot⟩ := s.boot_of_accepted host hlive hr
  rw [hboot]
  exact hjournal _ journal (hstart _)

theorem startedUp {s : Rig ω τ} (hbooting : s.machine.status = .booting)
    (hr : s.machine.refusal = none) (h : P s.machine) : P (s.boot host).1.machine := by
  have hlive : s.machine.status ≠ .halted := by
    rw [hbooting]
    decide
  exact booted host hP.journal hlive hr fun startedAt => hP.start s.machine startedAt hbooting hr h

theorem ready {s u : Rig ω τ} {failure : Option Failure} (h : P s.machine)
    (hready : s.ready host = (u, failure)) : P u.machine :=
  Rig.Kept.readied (P := fun v => P v.machine) h
    (fun hbooting hr => hP.startedUp host hbooting hr h) hready

variable [OfNat τ 0] [Sub τ]

/-- What a machine keeps it keeps in any world. -/
theorem rig : Rig.Kept host fun s => P s.machine where
  clock _ h := h
  sleep _ _ h := h
  stop s h := hP.stop s.machine h
  halt _ error h := hP.halted host error h
  start _ hbooting hr h := hP.startedUp host hbooting hr h
  commit s state after word hstate hstep h := hP.commit s.machine state after word hstate hstep h
  notify s i h :=
    s.notify_preserves host (P := fun u => P u.machine) i h fun _ a _ => hP.act host a
  tick s _ hstate h := by
    rw [s.lower_eq host hstate]
    exact hP.tick s.machine h

theorem cycle_of_sample {s u : Rig ω τ} (hready : s.ready host = (u, none))
    (h : P (u.machine.sample (host.pressedKeys u.world))) : P (s.cycle host).1.machine := by
  refine (hP.rig host).cycle_of_sample hready ?_
  dsimp only
  exact h

end

variable [OfNat τ 0] [OfNat τ 1] [OfNat τ 4] [Add τ] [Sub τ] [Mul τ] [Div τ] [LE τ]
  [DecidableLE τ] [HasRates τ]

theorem after {s t : Rig ω τ} {c : Call ω} (hsample : KeptBySamples P)
    (hboot : c = .boot → KeptByBoots P) (h : P s.machine) (hc : s.after host c = some t) :
    P t.machine := by
  have hsamples : Rig.KeptBySamples host fun u => P u.machine := by
    intro u state hstate hu
    -- Otherwise the sample is unfolded before the projection, and its keypads compared.
    dsimp only
    exact hsample u.machine (host.pressedKeys u.world) state hstate hu
  have hboots : c = .boot → Rig.KeptByBoots host fun u => P u.machine := by
    intro heq u hlive hr hu
    exact booted host hP.journal hlive hr fun startedAt => hboot heq u.machine startedAt hlive hr hu
  exact (hP.rig host).after hsamples hboots (fun _ _ _ hu => hu) h hc

theorem afterAll {s t : Rig ω τ} {calls : List (Call ω)} (hsample : KeptBySamples P)
    (hboot : Call.boot ∈ calls → KeptByBoots P) (h : P s.machine)
    (hcalls : s.afterAll host calls = some t) : P t.machine := by
  refine Rig.afterAll_preserves host (P := fun u => P u.machine) calls ?_ h hcalls
  intro c hc u v hu hafter
  exact hP.after host hsample (fun heq => hboot (heq ▸ hc)) hu hafter

theorem after_other {s t : Rig ω τ} {c : Call ω} (hboot : c ≠ .boot) (hcycle : c ≠ .cycle)
    (h : P s.machine) (hc : s.after host c = some t) :
    t.machine.status = .halted ∨ P t.machine :=
  (hP.rig host).after_other hboot hcycle (fun _ _ _ hs => hs) h hc

end Machine.Kept

/-! ## Settings, machines that have halted, and machines that cannot start -/

namespace Machine

variable {τ : Type}

/-- A machine has this program and these settings. -/
def Made (program : List UInt8) (config : Config τ) (threshold : Level) (m : Machine τ) : Prop :=
  m.program = program ∧ m.config = config ∧ m.threshold = threshold

theorem made_mapState {program : List UInt8} {config : Config τ} {threshold : Level}
    {m : Machine τ} (h : m.Made program config threshold) (f : State → State) :
    (m.mapState f).Made program config threshold := by
  obtain ⟨phase, hframe⟩ := m.mapState_frame f
  rw [hframe]
  exact h

/-- Program and settings are given when a machine is made. -/
theorem kept_made (program : List UInt8) (config : Config τ) (threshold : Level) :
    Kept fun m : Machine τ => m.Made program config threshold where
  journal _ _ h := h
  stop m h := by
    obtain ⟨phase, hframe⟩ := m.stop_frame
    rw [hframe]
    exact h
  halt _ _ h := h
  start _ _ _ _ h := h
  commit _ _ after _ _ _ h := made_mapState h fun _ => after
  tick _ h := made_mapState h State.tick

theorem made_sample (program : List UInt8) (config : Config τ) (threshold : Level) :
    KeptBySamples fun m : Machine τ => m.Made program config threshold := by
  intro m codes _ _ h
  obtain ⟨phase, hframe⟩ := m.sample_frame codes
  rw [hframe]
  exact h

theorem made_started (program : List UInt8) (config : Config τ) (threshold : Level) :
    KeptByBoots fun m : Machine τ => m.Made program config threshold :=
  fun _ _ _ _ h => h

theorem kept_halted : Kept fun m : Machine τ => m.status = .halted where
  journal _ _ h := h
  stop m h := by
    rw [m.status_stop]
    exact h
  halt _ _ _ := rfl
  start m _ hbooting _ h := by
    rw [h] at hbooting
    cases hbooting
  commit m _ after _ _ _ h := (m.status_mapState fun _ => after).trans h
  tick m h := (m.status_mapState State.tick).trans h

/-- A machine has this refusal, and if it runs it has none. -/
def Vetted (r : Option Failure) (m : Machine τ) : Prop :=
  m.refusal = r ∧ (m.status = .running → r = none)

theorem kept_vetted (r : Option Failure) : Kept fun m : Machine τ => m.Vetted r where
  journal _ _ h := h
  stop m h := by
    unfold Vetted
    rw [m.refusal_stop, m.status_stop]
    exact h
  halt _ _ h := ⟨h.1, fun hrunning => by cases hrunning⟩
  start m _ _ hr h := ⟨h.1, fun _ => h.1.symm.trans hr⟩
  commit m _ after _ _ _ h :=
    ⟨(m.refusal_mapState fun _ => after).trans h.1,
      fun hrunning => h.2 ((m.status_mapState fun _ => after).symm.trans hrunning)⟩
  tick m h :=
    ⟨(m.refusal_mapState State.tick).trans h.1,
      fun hrunning => h.2 ((m.status_mapState State.tick).symm.trans hrunning)⟩

theorem vetted_sample (r : Option Failure) : KeptBySamples fun m : Machine τ => m.Vetted r := by
  intro m codes _ _ h
  unfold Vetted
  rw [m.refusal_sample, m.status_sample]
  exact h

theorem vetted_started (r : Option Failure) : KeptByBoots fun m : Machine τ => m.Vetted r := by
  intro m startedAt _ hr h
  exact ⟨h.1, fun _ => h.1.symm.trans hr⟩

end Machine

section

variable {ω τ : Type} [OfNat τ 0] [OfNat τ 1] [OfNat τ 4] [Add τ] [Sub τ] [Mul τ] [Div τ]
  [LE τ] [DecidableLE τ] [HasRates τ]

/-- Whatever is called on a halted machine, it stays halted. -/
theorem Rig.halted_afterAll (host : Host ω τ) {s t : Rig ω τ} {calls : List (Call ω)}
    (h : s.machine.status = .halted) (hcalls : s.afterAll host calls = some t) :
    t.machine.status = .halted := by
  refine Machine.kept_halted.afterAll host ?_ (fun _ m _ hlive _ h => absurd h hlive) h hcalls
  intro m codes _ _ hhalted
  rw [m.status_sample]
  exact hhalted

/-- A machine that was new once and can fetch now has no refusal. -/
theorem Rig.refusal_of_fetches (host : Host ω τ) {s t : Rig ω τ} {calls : List (Call ω)}
    (hnew : s.machine.status = .booting) (hcalls : s.afterAll host calls = some t)
    {codes : List Int} {seen : State} (h : t.fetches? host = some (codes, seen)) :
    s.machine.refusal = none := by
  have hvetted := Machine.kept_vetted (τ := τ) s.machine.refusal
  have hstart : s.machine.Vetted s.machine.refusal :=
    ⟨rfl, fun hrunning => by rw [hnew] at hrunning; cases hrunning⟩
  have hend := hvetted.afterAll host (Machine.vetted_sample _) (fun _ => Machine.vetted_started _)
    hstart hcalls
  obtain ⟨u, hready, -⟩ := t.fetches?_eq_some host h
  obtain ⟨g, hg⟩ := t.running_of_ready host hready
  exact (hvetted.ready host hend hready).2 (u.machine.status_of_running hg)

end

end Chip8
