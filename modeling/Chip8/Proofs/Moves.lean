/-
Chip8.Proofs.Moves — the moves that calls make.

`Rig.movesAll` lists the moves of a history, call by call. A boot starts
the machine, a cycle executes the instruction that it fetches, a tick
lowers the timers, and a run does what its loop does; the first of them
that finds a new machine starts it as well. A call that the machine refuses
makes no move.

A history is the course of these moves (`course_of_afterAll`): one lemma for
each call, and for a run one for each part of its loop. As long as the
machine runs nothing is left out. After a boot there is one instruction for
every cycle and one tick for every tick that was called, in the order of the
calls (`kinds_movesAll`).
-/
import Chip8.Proofs.Course
import Chip8.Proofs.Firings
import Chip8.Proofs.Halting

namespace Chip8

/-! ## The moves of a call -/

namespace Rig

section

variable {ω τ : Type} [HasRates τ] (host : Host ω τ) (s : Rig ω τ)

/-- A boot starts a machine that can start and has not halted. -/
def bootMoves (s : Rig ω τ) : List Move :=
  if s.machine.status = .halted then []
  else
    match s.machine.refusal with
    | none => [.start]
    | some _ => []

/-- A new machine starts before it works. -/
def readyMoves (s : Rig ω τ) : List Move :=
  if s.machine.status = .booting then s.bootMoves else []

/-- A cycle executes the instruction that it fetches, unless its step fails. -/
def cycleMoves : List Move :=
  s.readyMoves ++
    match s.fetches? host with
    | none => []
    | some (_, seen) =>
      match seen.step with
      | .error _ => []
      | .ok (after, word) => [.execute ⟨seen, ⟨word⟩, after⟩]

/-- A tick lowers the timers of a machine that is ready. -/
def tickMoves : List Move :=
  s.readyMoves ++
    match s.ready host with
    | (_, some _) => []
    | (u, none) => (u.machine.state?.map Move.tick).toList

variable {host s}

omit [HasRates τ] in
theorem bootMoves_of_accepted (hlive : s.machine.status ≠ .halted)
    (hr : s.machine.refusal = none) : s.bootMoves = [.start] := by
  unfold bootMoves
  rw [if_neg hlive, hr]

omit [HasRates τ] in
theorem readyMoves_of_running (h : s.machine.status = .running) : s.readyMoves = [] :=
  if_neg (by rw [h]; decide)

theorem cycleMoves_of_step {codes : List Int} {seen after : State} {word : UInt16}
    (hfetches : s.fetches? host = some (codes, seen)) (hstep : seen.step = .ok (after, word)) :
    s.cycleMoves host = s.readyMoves ++ [.execute ⟨seen, ⟨word⟩, after⟩] := by
  simp only [cycleMoves, hfetches, hstep]

theorem cycleMoves_of_fault {codes : List Int} {seen : State} {f : Fault}
    (hfetches : s.fetches? host = some (codes, seen)) (hstep : seen.step = .error f) :
    s.cycleMoves host = s.readyMoves := by
  simp only [cycleMoves, hfetches, hstep, List.append_nil]

theorem cycleMoves_of_not_ready {u : Rig ω τ} {e : Failure} (h : s.ready host = (u, some e)) :
    s.cycleMoves host = s.readyMoves := by
  simp only [cycleMoves, fetches?, h, List.append_nil]

theorem tickMoves_of_ready {u : Rig ω τ} {before : State} (h : s.ready host = (u, none))
    (hstate : u.machine.state? = some before) :
    s.tickMoves host = s.readyMoves ++ [.tick before] := by
  simp only [tickMoves, h, hstate, Option.map_some, Option.toList_some]

theorem tickMoves_of_not_ready {u : Rig ω τ} {e : Failure} (h : s.ready host = (u, some e)) :
    s.tickMoves host = s.readyMoves := by
  simp only [tickMoves, h, List.append_nil]

end

end Rig

namespace Loop

variable {ω τ : Type} [OfNat τ 0] [OfNat τ 1] [OfNat τ 4] [Add τ] [Sub τ] [Mul τ] [Div τ]
  [LE τ] [DecidableLE τ] [HasRates τ] (host : Host ω τ)

/-- The moves of a cycle, if one is due at the time `now`. -/
def instructionMoves (now : τ) (l : Loop ω τ) : List Move :=
  if l.isDue now .instruction then l.rig.cycleMoves host else []

/-- The moves of a tick, if one is due and no stop was requested. -/
def timerMoves (now : τ) (l : Loop ω τ) : List Move :=
  if l.rig.machine.goesOn && l.isDue now .timer then l.rig.tickMoves host else []

/-- The moves of an iteration that sees the time `now`: a failed cycle is followed by no tick. -/
def movesAt (now : τ) (l : Loop ω τ) : List Move :=
  l.instructionMoves host now ++
    match l.fireInstruction host now with
    | (_, _, some _) => []
    | (l, _, none) => l.timerMoves host now

/-- The moves of an iteration. -/
def movesOnce (l : Loop ω τ) : List Move :=
  let (now, rig) := l.rig.readClock host
  movesAt host now { l with rig := rig }

/-- The moves of at most `fuel` iterations. -/
def moves : Nat → Loop ω τ → List Move
  | 0, _ => []
  | fuel + 1, l =>
    if l.rig.machine.goesOn then
      l.movesOnce host ++
        match l.iterate host with
        | (_, some _) => []
        | (l, none) => moves fuel l
    else []

end Loop

namespace Rig

section

variable {ω τ : Type} [OfNat τ 0] [OfNat τ 1] [OfNat τ 4] [Add τ] [Sub τ] [Mul τ] [Div τ]
  [LE τ] [DecidableLE τ] [HasRates τ] (host : Host ω τ)

/-- The moves of a run of at most `fuel` iterations. -/
def runMoves (fuel : Nat) (s : Rig ω τ) : List Move :=
  s.readyMoves ++
    match s.ready host with
    | (_, some _) => []
    | (u, none) => if u.machine.config.hasRates then (u.enterLoop host).moves host fuel else []

/-- The moves of a call. -/
def moves (s : Rig ω τ) : Call ω → List Move
  | .boot => s.bootMoves
  | .cycle => s.cycleMoves host
  | .tick => s.tickMoves host
  | .run fuel | .runDetached fuel => s.runMoves host fuel
  | .stop | .halt _ | .affect _ => []

/-- The moves of a history, in order. -/
def movesAll (s : Rig ω τ) : List (Call ω) → List Move
  | [] => []
  | c :: rest =>
    s.moves host c ++
      match s.after host c with
      | some t => t.movesAll rest
      | none => []

variable {host} in
theorem movesAll_cons {s t : Rig ω τ} {c : Call ω} (h : s.after host c = some t)
    (rest : List (Call ω)) :
    s.movesAll host (c :: rest) = s.moves host c ++ t.movesAll host rest := by
  simp only [movesAll, h]

end

/-! ## A history is the course of its moves -/

namespace Course

section

variable {ω τ : Type} [OfNat τ 0] [Sub τ] [HasRates τ] {host : Host ω τ} {A : (ω → ω) → Prop}
  {s t : Rig ω τ} {l : Loop ω τ} {moves : List Move}

theorem boot (h : s.Course host A moves t) :
    s.Course host A (moves ++ t.bootMoves) (t.boot host).1 := by
  unfold bootMoves
  by_cases hlive : t.machine.status = .halted
  · rw [if_pos hlive, List.append_nil, t.boot_of_halted host hlive]
    exact h
  · rw [if_neg hlive]
    cases hr : t.machine.refusal with
    | some e =>
      rw [t.boot_of_refusal host hlive hr, List.append_nil]
      exact h
    | none => exact h.move (.start hlive hr)

theorem ready (h : s.Course host A moves t) :
    s.Course host A (moves ++ t.readyMoves) (t.ready host).1 := by
  unfold readyMoves
  cases hlife : t.machine.life with
  | booting =>
    rw [if_pos (t.machine.status_of_booting hlife), t.ready_of_booting host hlife]
    exact h.boot
  | running g =>
    have hstatus := t.machine.status_of_running hlife
    rw [if_neg (by rw [hstatus]; decide), t.ready_of_running host hlife, List.append_nil]
    exact h
  | halted error =>
    have hstatus : t.machine.status = .halted := by rw [t.machine.status_eq, hlife]; rfl
    rw [if_neg (by rw [hstatus]; decide), t.ready_of_halted host hlife, List.append_nil]
    exact h

theorem cycle (h : s.Course host A moves t) :
    s.Course host A (moves ++ t.cycleMoves host) (t.cycle host).1 := by
  have hready := h.ready
  rcases hresult : t.ready host with ⟨u, _ | e⟩
  · rw [hresult] at hready
    obtain ⟨seen, hseen, hfetches⟩ := t.fetches?_of_ready host hresult
    obtain ⟨m, hm⟩ : ∃ m, u.machine.sample (host.pressedKeys u.world) = m := ⟨_, rfl⟩
    have hsampled : s.Course host A (moves ++ t.readyMoves) ⟨m, u.world⟩ := by
      rw [← hm]
      exact hready.quiet .sample
    rw [hm] at hseen
    have hcycle := t.cycle_of_ready host hresult hm hseen
    cases hstep : seen.step with
    | error f =>
      rw [hstep] at hcycle
      rw [cycleMoves_of_fault hfetches hstep, hcycle]
      exact hsampled.quiet (.halt (some (.fault f)))
    | ok result =>
      obtain ⟨after, word⟩ := result
      rw [hstep] at hcycle
      rw [cycleMoves_of_step hfetches hstep, hcycle, ← List.append_assoc]
      exact (hsampled.move (.execute hseen hstep)).quiet (.notify ⟨word⟩)
  · rw [hresult] at hready
    rw [cycleMoves_of_not_ready hresult, t.cycle_of_not_ready host hresult]
    exact hready

theorem tick (h : s.Course host A moves t) :
    s.Course host A (moves ++ t.tickMoves host) (t.tick host).1 := by
  have hready := h.ready
  rcases hresult : t.ready host with ⟨u, _ | e⟩
  · rw [hresult] at hready
    obtain ⟨before, hbefore, -⟩ := t.tick_of_ready host hresult
    rw [tickMoves_of_ready hresult hbefore, t.tick_eq_lower host hresult, ← List.append_assoc]
    exact hready.move (.tick hbefore)
  · rw [hresult] at hready
    rw [tickMoves_of_not_ready hresult, t.tick_of_not_ready host hresult]
    exact hready

theorem idle (h : s.Course host A moves l.rig) : s.Course host A moves (l.idle host).1.rig := by
  have hslept := h.quiet (.sleep l.rig.machine.config.pause)
  unfold Loop.idle
  rcases hsleep : host.sleep l.rig.machine.config.pause l.rig.world with ⟨world, failure | stops⟩
  · rw [hsleep] at hslept
    exact hslept
  · rw [hsleep] at hslept
    cases stops with
    | false => exact hslept
    | true => exact hslept.quiet .stop

end

section

variable {ω τ : Type} [OfNat τ 0] [OfNat τ 1] [OfNat τ 4] [Add τ] [Sub τ] [Mul τ] [Div τ]
  [LE τ] [DecidableLE τ] [HasRates τ] {host : Host ω τ} {A : (ω → ω) → Prop}
  {s t u : Rig ω τ} {l : Loop ω τ} {moves : List Move}

theorem fireInstruction (now : τ) (h : s.Course host A moves l.rig) :
    s.Course host A (moves ++ l.instructionMoves host now) (l.fireInstruction host now).1.rig := by
  unfold Loop.instructionMoves
  rw [Loop.fireInstruction_eq]
  split
  · rw [Loop.rig_moved]
    exact h.cycle
  · rw [List.append_nil]
    exact h

theorem fireTimer (now : τ) (h : s.Course host A moves l.rig) :
    s.Course host A (moves ++ l.timerMoves host now) (l.fireTimer host now).1.rig := by
  unfold Loop.timerMoves
  rw [Loop.fireTimer_eq]
  split
  · rw [Loop.rig_moved]
    exact h.tick
  · rw [List.append_nil]
    exact h

theorem iterateAt (now : τ) (h : s.Course host A moves l.rig) :
    s.Course host A (moves ++ l.movesAt host now) (l.iterateAt host now).1.rig := by
  have hinstruction := h.fireInstruction now
  have hiterates := Loop.iterates_iterateAt host now l
  unfold Loop.movesAt
  generalize l.iterateAt host now = r at hiterates ⊢
  cases hiterates with
  | instructionFailed hfire =>
    rw [hfire] at hinstruction ⊢
    rw [List.append_nil]
    exact hinstruction
  | timerFailed hfire htick | active hfire htick _ =>
    rw [hfire] at hinstruction ⊢
    have htimer := hinstruction.fireTimer now
    rw [htick, List.append_assoc] at htimer
    exact htimer
  | idle hfire htick hslept =>
    rw [hfire] at hinstruction ⊢
    have htimer := hinstruction.fireTimer now
    rw [htick, List.append_assoc] at htimer
    rw [← hslept]
    exact htimer.idle

theorem iterate (h : s.Course host A moves l.rig) :
    s.Course host A (moves ++ l.movesOnce host) (l.iterate host).1.rig :=
  iterateAt (l := { l with rig := (l.rig.readClock host).2 }) _ (h.quiet .clock)

/-- The course of a loop, by induction on its iterations. -/
theorem finish (fuel : Nat) {failure : Option Failure} (h : s.Course host A moves l.rig)
    (hfinish : l.finish host fuel = some (t, failure)) :
    s.Course host A (moves ++ l.moves host fuel) t := by
  induction fuel generalizing l moves with
  | zero => cases hfinish
  | succ fuel ih =>
    unfold Loop.finish at hfinish
    unfold Loop.moves
    by_cases hgo : l.rig.machine.goesOn
    · rw [if_pos hgo] at hfinish ⊢
      have hiterate := h.iterate
      rcases hl : l.iterate host with ⟨l', _ | e⟩
      · rw [hl] at hiterate
        simp only [hl] at hfinish
        rw [← List.append_assoc]
        exact ih hiterate hfinish
      · rw [hl] at hiterate
        simp only [hl] at hfinish
        cases hfinish
        rw [List.append_nil]
        exact hiterate.quiet (.halt (some e))
    · rw [if_neg hgo] at hfinish ⊢
      cases hfinish
      rw [List.append_nil]
      exact h.quiet (.halt none)

theorem run {fuel : Nat} {failure : Option Failure} (h : s.Course host A moves t)
    (hrun : t.run host fuel = some (u, failure)) :
    s.Course host A (moves ++ t.runMoves host fuel) u := by
  have hready := h.ready
  unfold runMoves
  rcases hresult : t.ready host with ⟨v, _ | e⟩
  · rw [hresult] at hready
    rw [t.run_of_ready host fuel hresult] at hrun
    dsimp only
    by_cases hrates : v.machine.config.hasRates
    · rw [if_pos hrates] at hrun ⊢
      rw [← List.append_assoc]
      exact finish (l := v.enterLoop host) fuel (hready.quiet .clock) hrun
    · rw [if_neg hrates] at hrun ⊢
      cases hrun
      rw [List.append_nil]
      exact hready
  · rw [hresult] at hready
    rw [t.run_of_not_ready host fuel hresult] at hrun
    cases hrun
    dsimp only
    rw [List.append_nil]
    exact hready

theorem after {c : Call ω} (hA : ∀ f, c = .affect f → A f) (h : s.Course host A moves t)
    (hc : t.after host c = some u) : s.Course host A (moves ++ t.moves host c) u := by
  cases c with
  | boot =>
    cases hc
    exact h.boot
  | cycle =>
    cases hc
    exact h.cycle
  | tick =>
    cases hc
    exact h.tick
  | stop =>
    cases hc
    exact (List.append_nil moves).symm ▸ h.quiet .stop
  | halt error =>
    cases hc
    exact (List.append_nil moves).symm ▸ h.quiet (.halt error)
  | run fuel | runDetached fuel =>
    obtain ⟨⟨v, failure⟩, hrun, rfl⟩ := Option.map_eq_some_iff.mp hc
    exact h.run hrun
  | affect f =>
    cases hc
    exact (List.append_nil moves).symm ▸ h.quiet (.affect (hA f rfl))

theorem afterAll {calls : List (Call ω)} (hA : ∀ f, .affect f ∈ calls → A f)
    (h : s.Course host A moves t) (hcalls : t.afterAll host calls = some u) :
    s.Course host A (moves ++ t.movesAll host calls) u := by
  induction calls generalizing t moves with
  | nil =>
    cases hcalls
    exact (List.append_nil moves).symm ▸ h
  | cons c rest ih =>
    obtain ⟨v, hv, hrest⟩ := (afterAll_cons_eq_some host).mp hcalls
    have hfirst := h.after (fun f heq => hA f (heq ▸ List.mem_cons_self)) hv
    have hlater := ih (fun f hf => hA f (List.mem_cons_of_mem c hf)) hfirst hrest
    rw [movesAll_cons hv, ← List.append_assoc]
    exact hlater

end

end Course

section

variable {ω τ : Type} [OfNat τ 0] [OfNat τ 1] [OfNat τ 4] [Add τ] [Sub τ] [Mul τ] [Div τ] [LE τ]
  [DecidableLE τ] [HasRates τ] (host : Host ω τ) {s t : Rig ω τ} {calls : List (Call ω)}

/-- **A history is the course of its moves**, whatever is called, how often, and what fails on the
way. -/
theorem course_of_afterAll (h : s.afterAll host calls = some t) :
    s.Course host (fun f => .affect f ∈ calls) (s.movesAll host calls) t :=
  Course.afterAll (fun _ hf => hf) .refl h

/-- A new machine counts all the instructions and all the ticks among its moves. -/
theorem counts_of_new {program : List UInt8} {config : Config τ} {threshold : Level}
    (hnew : s.machine = Machine.new program config threshold)
    (h : s.afterAll host calls = some t) :
    t.machine.cycles = (executions (s.movesAll host calls)).length ∧
      t.machine.ticks = (s.movesAll host calls).countP Move.isTick := by
  obtain ⟨hcycles, hticks⟩ := (course_of_afterAll host h).counts
  rw [hnew] at hcycles hticks
  exact ⟨hcycles.trans (Nat.zero_add _), hticks.trans (Nat.zero_add _)⟩

end

end Rig

/-! ## One move for each call -/

/-- What a move is, whatever state it meets. -/
inductive Move.Kind where
  | start
  | instruction
  | tick
deriving DecidableEq, Repr

def Move.kind : Move → Move.Kind
  | .start => .start
  | .execute _ => .instruction
  | .tick _ => .tick

namespace Call

variable {ω : Type}

/-- The one move that a call asks for. A run asks for as many as there is time for. -/
def kind? : Call ω → Option Move.Kind
  | .boot => some .start
  | .cycle => some .instruction
  | .tick => some .tick
  | .stop | .halt _ | .run _ | .runDetached _ | .affect _ => none

def isRun : Call ω → Bool
  | .run _ | .runDetached _ => true
  | .boot | .cycle | .tick | .stop | .halt _ | .affect _ => false

theorem filterMap_kind?_cons (c : Call ω) (rest : List (Call ω)) :
    (c :: rest).filterMap kind? = c.kind?.toList ++ rest.filterMap kind? := by
  rw [List.filterMap_cons]
  cases c.kind? <;> rfl

end Call

namespace Machine

variable {τ : Type}

/-- A machine that does not work any more: it has halted, or it cannot start. -/
def Idle (m : Machine τ) : Prop := m.status = .halted ∨ m.status = .booting ∧ m.refusal ≠ none

theorem not_running_of_idle {m : Machine τ} (h : m.Idle) : m.status ≠ .running := by
  rcases h with h | ⟨h, -⟩
  · rw [h]
    decide
  · rw [h]
    decide

theorem idle_congr {m m' : Machine τ} (h : m.Idle) (hstatus : m'.status = m.status)
    (hrefusal : m'.refusal = m.refusal) : m'.Idle := by
  unfold Idle
  rw [hstatus, hrefusal]
  exact h

theorem not_idle_of_start {m : Machine τ} (hlive : m.status ≠ .halted) (hr : m.refusal = none) :
    ¬ m.Idle := by
  rintro (h | ⟨-, h⟩)
  · exact hlive h
  · exact h hr

theorem kept_idle : Kept (Idle : Machine τ → Prop) where
  journal _ _ h := h
  stop m h := idle_congr h m.status_stop m.refusal_stop
  halt _ _ _ := .inl rfl
  start m _ hbooting hr h := absurd h (not_idle_of_start (by rw [hbooting]; decide) hr)
  commit m _ after _ _ _ h :=
    idle_congr h (m.status_mapState fun _ => after) (m.refusal_mapState fun _ => after)
  tick m h := idle_congr h (m.status_mapState State.tick) (m.refusal_mapState State.tick)

theorem idle_sample : KeptBySamples (Idle : Machine τ → Prop) := fun m codes _ _ h =>
  idle_congr h (m.status_sample codes) (m.refusal_sample codes)

theorem idle_started : KeptByBoots (Idle : Machine τ → Prop) := fun _ _ hlive hr h =>
  absurd h (not_idle_of_start hlive hr)

end Machine

namespace Rig

section

variable {ω τ : Type} {s : Rig ω τ}

theorem bootMoves_of_idle (h : s.machine.Idle) : s.bootMoves = [] := by
  unfold bootMoves
  rcases h with h | ⟨-, h⟩
  · exact if_pos h
  · obtain ⟨e, he⟩ := Option.ne_none_iff_exists'.mp h
    rw [he]
    exact ite_self _

theorem readyMoves_of_idle (h : s.machine.Idle) : s.readyMoves = [] := by
  unfold readyMoves
  rw [bootMoves_of_idle h]
  exact ite_self _

variable [HasRates τ] (host : Host ω τ)

theorem exists_failure_of_idle (h : s.machine.Idle) : ∃ e, s.ready host = (s, some e) := by
  rcases h with hhalted | ⟨hbooting, hr⟩
  · obtain ⟨error, hlife⟩ := s.machine.life_of_halted hhalted
    exact ⟨_, s.ready_of_halted host hlife⟩
  · obtain ⟨e, he⟩ := Option.ne_none_iff_exists'.mp hr
    have hboot := s.boot_of_refusal host (by rw [hbooting]; decide) he
    exact ⟨e, (s.ready_of_booting host (s.machine.life_of_booting hbooting)).trans hboot⟩

theorem tickMoves_of_running (hrunning : s.machine.status = .running) :
    ∃ before, s.tickMoves host = [.tick before] := by
  obtain ⟨g, hlife⟩ := s.machine.life_of_running hrunning
  obtain ⟨before, hstate⟩ := s.machine.state?_of_running hlife
  refine ⟨before, ?_⟩
  rw [tickMoves_of_ready (s.ready_of_running host hlife) hstate, readyMoves_of_running hrunning,
    List.nil_append]

variable [OfNat τ 0] [Sub τ]

/-- A cycle of a running machine executes an instruction or halts it. -/
theorem cycleMoves_cases (hrunning : s.machine.status = .running) :
    (∃ e, s.cycleMoves host = [.execute e]) ∨
      s.cycleMoves host = [] ∧ (s.cycle host).1.machine.status = .halted := by
  obtain ⟨g, hlife⟩ := s.machine.life_of_running hrunning
  have hready := s.ready_of_running host hlife
  obtain ⟨seen, hseen, hfetches⟩ := s.fetches?_of_ready host hready
  have hcycle := s.cycle_of_ready host hready rfl hseen
  cases hstep : seen.step with
  | ok result =>
    refine .inl ⟨⟨seen, ⟨result.2⟩, result.1⟩, ?_⟩
    rw [cycleMoves_of_step hfetches hstep, readyMoves_of_running hrunning, List.nil_append]
  | error f =>
    rw [hstep] at hcycle
    rw [cycleMoves_of_fault hfetches hstep, hcycle]
    exact .inr ⟨readyMoves_of_running hrunning, status_halt host _ _⟩

end

section

variable {ω τ : Type} [OfNat τ 0] [OfNat τ 1] [OfNat τ 4] [Add τ] [Sub τ] [Mul τ] [Div τ] [LE τ]
  [DecidableLE τ] [HasRates τ] {host : Host ω τ} {s t u : Rig ω τ} {calls : List (Call ω)}

/-- A machine that does not work makes no move in any call. -/
theorem moves_of_idle (h : s.machine.Idle) (c : Call ω) : s.moves host c = [] := by
  obtain ⟨e, hready⟩ := exists_failure_of_idle host h
  have hnone := readyMoves_of_idle h
  cases c with
  | boot => exact bootMoves_of_idle h
  | cycle => exact (cycleMoves_of_not_ready hready).trans hnone
  | tick => exact (tickMoves_of_not_ready hready).trans hnone
  | run fuel | runDetached fuel =>
    show s.runMoves host fuel = []
    simp only [runMoves, hready, hnone, List.append_nil]
  | stop | halt error | affect f => rfl

theorem movesAll_of_idle (h : s.machine.Idle) : s.movesAll host calls = [] := by
  induction calls generalizing s with
  | nil => rfl
  | cons c rest ih =>
    unfold movesAll
    rw [moves_of_idle h, List.nil_append]
    cases hc : s.after host c with
    | none => rfl
    | some u =>
      have hu := Machine.kept_idle.after host Machine.idle_sample
        (fun _ => Machine.idle_started) h hc
      exact ih hu

/-- A run halts a running machine, unless there are no periods for its loop. -/
theorem runMoves_cases {fuel : Nat} {failure : Option Failure}
    (hrunning : s.machine.status = .running) (hrun : s.run host fuel = some (u, failure)) :
    s.runMoves host fuel = [] ∨ u.machine.status = .halted := by
  obtain ⟨g, hlife⟩ := s.machine.life_of_running hrunning
  have hready := s.ready_of_running host hlife
  rw [s.run_of_ready host fuel hready] at hrun
  by_cases hrates : s.machine.config.hasRates
  · rw [if_pos hrates] at hrun
    exact .inr (status_of_finish host fuel hrun)
  · simp only [runMoves, hready, readyMoves_of_running hrunning, if_neg hrates, List.append_nil]
    exact .inl trivial

/-- **A call on a running machine makes the move that it asks for**, or it halts the machine; then
it makes no move, unless it is a run. -/
theorem kind_moves {c : Call ω} (hrunning : s.machine.status = .running)
    (hr : s.machine.refusal = none) (hc : s.after host c = some u) :
    (s.moves host c).map Move.kind = c.kind?.toList ∨
      u.machine.status = .halted ∧ (c.isRun = false → s.moves host c = []) := by
  have hrun : ∀ {fuel : Nat}, (s.run host fuel).map (·.1) = some u →
      s.runMoves host fuel = [] ∨ u.machine.status = .halted := by
    intro fuel hmap
    obtain ⟨⟨v, failure⟩, hv, rfl⟩ := Option.map_eq_some_iff.mp hmap
    exact runMoves_cases hrunning hv
  cases c with
  | boot =>
    have hmoves := bootMoves_of_accepted (by rw [hrunning]; decide) hr
    exact .inl (congrArg (List.map Move.kind) hmoves)
  | cycle =>
    cases hc
    rcases cycleMoves_cases host hrunning with ⟨e, he⟩ | ⟨hnone, hhalted⟩
    · exact .inl (congrArg (List.map Move.kind) he)
    · exact .inr ⟨hhalted, fun _ => hnone⟩
  | tick =>
    obtain ⟨before, hbefore⟩ := tickMoves_of_running host hrunning
    exact .inl (congrArg (List.map Move.kind) hbefore)
  | run fuel | runDetached fuel =>
    rcases hrun hc with hnone | hhalted
    · exact .inl (congrArg (List.map Move.kind) hnone)
    · exact .inr ⟨hhalted, fun h => nomatch h⟩
  | stop | halt error | affect f => exact .inl rfl

/-- What a call leaves of a running machine, and that it can still start again. -/
theorem running_or_halted_after {c : Call ω} (hrunning : s.machine.status = .running)
    (hr : s.machine.refusal = none) (hc : s.after host c = some u) :
    u.machine.status = .halted ∨ u.machine.status = .running ∧ u.machine.refusal = none := by
  have hone : s.afterAll host [c] = some u := (afterAll_cons_eq_some host).mpr ⟨u, hc, rfl⟩
  have hrank := rank_afterAll host hone
  have hcourse := (Course.refl (A := fun f => c = .affect f)).after (fun _ heq => heq) hc
  obtain ⟨hprogram, hconfig⟩ := hcourse.settings
  cases hu : u.machine.status with
  | halted => exact .inl rfl
  | running => exact .inr ⟨rfl, (Machine.refusal_congr hprogram hconfig).trans hr⟩
  | booting =>
    rw [hrunning, hu] at hrank
    exact absurd hrank (by decide)

/-- The same of a history, by induction on its calls. -/
theorem kinds_of_running (hrunning : s.machine.status = .running) (hr : s.machine.refusal = none)
    (h : s.afterAll host calls = some t) :
    ((∀ c ∈ calls, c.isRun = false) →
      (s.movesAll host calls).map Move.kind <+: calls.filterMap Call.kind?) ∧
    (t.machine.status = .running →
      (s.movesAll host calls).map Move.kind = calls.filterMap Call.kind?) := by
  induction calls generalizing s with
  | nil => exact ⟨fun _ => List.nil_prefix, fun _ => rfl⟩
  | cons c rest ih =>
    obtain ⟨u, hu, hrest⟩ := (afterAll_cons_eq_some host).mp h
    have hfirst := kind_moves hrunning hr hu
    rw [Call.filterMap_kind?_cons, movesAll_cons hu, List.map_append]
    rcases running_or_halted_after hrunning hr hu with hhalted | ⟨hgoes, hr'⟩
    · -- Nothing comes after the call that halts the machine.
      rw [movesAll_of_idle (.inl hhalted), List.map_nil, List.append_nil]
      refine ⟨fun hall => ?_, fun ht => ?_⟩
      · rcases hfirst with hkind | ⟨-, hnone⟩
        · rw [hkind]
          exact List.prefix_append _ _
        · rw [hnone (hall c List.mem_cons_self)]
          exact List.nil_prefix
      · rw [halted_afterAll host hhalted hrest] at ht
        cases ht
    · rcases hfirst with hkind | ⟨hhalted, -⟩
      · rw [hkind]
        obtain ⟨hinitial, hequal⟩ := ih hgoes hr' hrest
        exact ⟨fun hall => (List.prefix_append_right_inj _).mpr
            (hinitial fun d hd => hall d (List.mem_cons_of_mem c hd)),
          fun ht => congrArg _ (hequal ht)⟩
      · rw [hgoes] at hhalted
        cases hhalted

/-- **The calls tell the moves.** From a boot on a machine makes the moves that the calls ask for,
one for each cycle and one for each tick, in this order: all of them if it still runs at the end,
and up to its end otherwise, unless it was run in its loop. -/
theorem kinds_movesAll {program : List UInt8} {config : Config τ} {threshold : Level}
    (hnew : s.machine = Machine.new program config threshold)
    (h : s.afterAll host (.boot :: calls) = some t) :
    ((∀ c ∈ calls, c.isRun = false) →
      (s.movesAll host (.boot :: calls)).map Move.kind <+:
        (Call.boot :: calls).filterMap Call.kind?) ∧
    (t.machine.status = .running →
      (s.movesAll host (.boot :: calls)).map Move.kind =
        (Call.boot :: calls).filterMap Call.kind?) := by
  have hbooting : s.machine.status = .booting := by rw [hnew]; rfl
  have hlive : s.machine.status ≠ .halted := by rw [hbooting]; decide
  cases hr : s.machine.refusal with
  | some e =>
    have hidle : s.machine.Idle := .inr ⟨hbooting, by rw [hr]; exact Option.some_ne_none e⟩
    have hend := Machine.kept_idle.afterAll host Machine.idle_sample (fun _ => Machine.idle_started)
      hidle h
    rw [movesAll_of_idle hidle]
    exact ⟨fun _ => List.nil_prefix, fun ht => absurd ht (Machine.not_running_of_idle hend)⟩
  | none =>
    obtain ⟨u, hu, hrest⟩ := (afterAll_cons_eq_some host).mp h
    obtain rfl : (s.boot host).1 = u := Option.some.inj hu
    obtain ⟨journal, hboot⟩ := s.boot_of_accepted host hlive hr
    have hrunning : (s.boot host).1.machine.status = .running := by rw [hboot]; rfl
    have hr' : (s.boot host).1.machine.refusal = none := by
      rw [hboot]
      exact (Machine.refusal_congr rfl rfl).trans hr
    obtain ⟨hinitial, hequal⟩ := kinds_of_running hrunning hr' hrest
    have hstart : s.movesAll host (.boot :: calls) =
        .start :: (s.boot host).1.movesAll host calls :=
      (movesAll_cons hu calls).trans (congrArg (· ++ _) (bootMoves_of_accepted hlive hr))
    rw [hstart]
    exact ⟨fun hall => List.cons_prefix_cons.mpr ⟨rfl, hinitial hall⟩,
      fun ht => congrArg (List.cons Move.Kind.start) (hequal ht)⟩

end

end Rig

end Chip8
