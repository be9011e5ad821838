/-
Chip8.Proofs.Addresses — no address computation wraps.

`State.InRange` bounds the program counter by 0x10FE, the largest sum of
twelve bits and a byte, and every pending return by 2 and 0x1000, the
addresses behind a word that could be fetched. One step keeps it
(`step_inRange`): a return goes to a pending address, a skip or a key wait
stays close to a fetched word, and every other jump comes from the word.

It is a property that all changes of a machine keep (`kept_inRange`), so
it holds after every history (`addresses_never_wrap`). There every sum and
difference that a cycle can form is the one of the natural numbers.
-/
import Chip8.Proofs.Preservation
import Chip8.Proofs.Returns
import Chip8.Proofs.Stopping

namespace Chip8

/-! ## Destinations -/

namespace Operation

/-- Behind a fetched word execution goes on at 0x10FE at most, if a return does. -/
theorem destination_le (o : Operation) (i : Instruction) (s : State) {next : Nat}
    (hnext : next ≤ 0x1000)
    (htop : o = .ret → (s.stack.top Edge.standard.address).toNat ≤ 0x10FE) :
    o.destination i s next ≤ 0x10FE := by
  have hnnn := toNat_nnn i
  have hskip : (if o.skips i s then next + 2 else next) ≤ 0x10FE := by
    split <;> omega
  cases o with
  | jump | call =>
    show i.nnn.toNat ≤ 0x10FE
    omega
  | ret => exact htop rfl
  | jumpOffset =>
    have hbyte := (s.registers[0]?.getD 0).toNat_lt
    show i.nnn.toNat + (s.registers[0]?.getD 0).toNat ≤ 0x10FE
    omega
  | waitKey =>
    show (if s.keypad.lowest?.isNone then next - 2 else next) ≤ 0x10FE
    split <;> omega
  | _ => exact hskip

end Operation

/-! ## States in range -/

namespace State

/-- The program counter and every pending return are addresses that execution can reach. -/
structure InRange (s : State) : Prop where
  pc : s.pc.toNat ≤ 0x10FE
  returns : ∃ addresses, s.stack.Holds addresses ∧ ∀ a ∈ addresses, 2 ≤ a ∧ a ≤ 0x1000

variable {s t : State}

/-- The slots below the pointer are the pending returns. -/
theorem live_of_inRange (h : s.InRange) (k : Fin 16) (hk : k.val < s.stack.pointer.val) :
    2 ≤ (s.stack.slots.get k).toNat ∧ (s.stack.slots.get k).toNat ≤ 0x1000 := by
  obtain ⟨addresses, hholds, hbounds⟩ := h.returns
  have hlength : k.val < addresses.length := hholds.pointer ▸ hk
  rw [hholds.slot k, List.getD_eq_getElem addresses 0 hlength]
  exact hbounds _ (List.getElem_mem hlength)

theorem inRange_start (seed : Int) (program : List UInt8) : (start seed program).InRange where
  pc := by
    show (0x200 : UInt16).toNat ≤ 0x10FE
    decide
  returns := ⟨[], CallStack.holds_empty, fun a ha => absurd ha List.not_mem_nil⟩

theorem inRange_press (h : s.InRange) (codes : List Int) : (s.press codes).InRange where
  pc := by
    rw [press_pc]
    exact h.pc
  returns := by
    rw [press_stack]
    exact h.returns

theorem inRange_tick (h : s.InRange) : s.tick.InRange :=
  ⟨h.pc, h.returns⟩

/-- A pending return is one of the old ones, or lies behind the fetched word. -/
theorem mem_updateReturns {addresses : List Nat} {e : Execution} {a : Nat}
    (ha : a ∈ updateReturns addresses e) : a ∈ addresses ∨ a = e.before.pc.toNat + 2 := by
  unfold updateReturns at ha
  split at ha
  · rcases List.mem_append.mp ha with hold | hnew
    · exact .inl hold
    · exact .inr (List.mem_singleton.mp hnew)
  · exact .inl (List.dropLast_subset addresses ha)
  · exact .inl ha

/-- **What one step keeps**: the addresses stay in range. -/
theorem step_inRange {word : UInt16} (h : s.InRange) (hstep : s.step = .ok (t, word)) :
    t.InRange := by
  have hpc := ((step_eq_ok_iff s t word).mp hstep).1
  obtain ⟨o, ho, hpermit, htarget, -, -⟩ := step_flow hstep
  obtain ⟨addresses, hholds, hbounds⟩ := h.returns
  constructor
  · rw [htarget]
    refine o.destination_le ⟨word⟩ s (by omega) ?_
    rintro rfl
    -- The return was permitted, so some address is pending, and the top is the last of them.
    have hused : s.stack.pointer.val ≠ 0 :=
      Operation.nonempty_of_permit_ret (s := s.advance) hpermit
    obtain ⟨front, a, rfl⟩ := CallStack.exists_top_of_holds hholds hused
    have hlast := hbounds a (List.mem_append_right front (List.mem_singleton_self a))
    rw [CallStack.top_of_holds Edge.standard.address hholds]
    omega
  · refine ⟨_, step_holds hholds hstep, ?_⟩
    intro a ha
    rcases mem_updateReturns ha with hold | rfl
    · exact hbounds a hold
    · show 2 ≤ s.pc.toNat + 2 ∧ s.pc.toNat + 2 ≤ 0x1000
      omega

/-- The sums and differences that a cycle can form with a fetched program counter. -/
theorem fetch_no_wrap {word : UInt16} (hfetch : s.fetch = .ok (t, word)) :
    t.pc.toNat = s.pc.toNat + 2 ∧ (t.pc + 2).toNat = t.pc.toNat + 2 ∧
      (t.pc - 2).toNat + 2 = t.pc.toNat ∧
      (Instruction.nnn ⟨word⟩ + (t.register 0).toUInt16).toNat =
        (Instruction.nnn ⟨word⟩).toNat + (t.register 0).toNat := by
  obtain ⟨hpc, rfl, -⟩ := (fetch_eq_ok_iff s t word).mp hfetch
  have hnext : (s.pc + 2).toNat = s.pc.toNat + 2 := toNat_add_two (by omega)
  have hskip : (s.pc + 2 + 2).toNat = (s.pc + 2).toNat + 2 := toNat_add_two (by omega)
  have hback : (s.pc + 2 - 2).toNat = (s.pc + 2).toNat - 2 := toNat_sub_two (by omega)
  refine ⟨hnext, hskip, ?_, toNat_offset ⟨word⟩ _⟩
  show (s.pc + 2 - 2).toNat + 2 = (s.pc + 2).toNat
  omega

end State

/-! ## Machines in range -/

namespace Machine

variable {τ : Type}

/-- The state of a machine is in range, if it has one. -/
def InRange (m : Machine τ) : Prop := ∀ state, m.state? = some state → state.InRange

theorem inRange_of_map {m m' : Machine τ} {f : State → State} (h : m.InRange)
    (hf : ∀ state, state.InRange → (f state).InRange) (hstate : m'.state? = m.state?.map f) :
    m'.InRange := by
  intro state heq
  rw [hstate] at heq
  obtain ⟨before, hbefore, rfl⟩ := Option.map_eq_some_iff.mp heq
  exact hf before (h before hbefore)

theorem kept_inRange : Kept (InRange : Machine τ → Prop) where
  journal _ _ h := h
  stop m h := by
    intro state hstate
    rw [m.state?_stop] at hstate
    exact h state hstate
  halt _ _ h := h
  start m startedAt _ _ _ := by
    intro state hstate
    cases hstate
    exact State.inRange_start m.config.seed m.program
  commit m before after word hbefore hstep h := by
    have hafter := State.step_inRange (h before hbefore) hstep
    exact inRange_of_map h (fun _ _ => hafter) (m.state?_mapState _)
  tick m h := inRange_of_map h (fun _ => State.inRange_tick) (m.state?_mapState State.tick)

theorem inRange_sample (m : Machine τ) (codes : List Int) (h : m.InRange) :
    (m.sample codes).InRange := by
  refine inRange_of_map h (fun state hstate => ?_) (m.state?_sample codes)
  by_cases hsame : Keypad.ofKeys codes = m.sampled
  · rw [if_pos hsame]
    exact hstate
  · rw [if_neg hsame]
    exact State.inRange_press hstate codes

theorem inRange_started (m : Machine τ) (startedAt : τ) : (m.started startedAt).InRange := by
  intro state hstate
  cases hstate
  exact State.inRange_start m.config.seed m.program

end Machine

namespace Rig

variable {ω τ : Type} [OfNat τ 0] [OfNat τ 1] [OfNat τ 4] [Add τ] [Sub τ] [Mul τ] [Div τ]
  [LE τ] [DecidableLE τ] [HasRates τ]

/-- **Addresses never wrap**, whatever calls were made since the machine was new: its program
counter and its live stack entries are in range, and a cycle that fetches forms no sum and no
difference on sixteen bits that is not the one of the natural numbers. -/
theorem addresses_never_wrap (host : Host ω τ) {s t : Rig ω τ} {calls : List (Call ω)}
    (hnew : s.machine.status = .booting) (hcalls : s.afterAll host calls = some t) :
    (∀ state, t.machine.state? = some state →
      state.pc.toNat ≤ 0x10FE ∧
      ∀ k : Fin 16, k.val < state.stack.pointer.val →
        2 ≤ (state.stack.slots.get k).toNat ∧ (state.stack.slots.get k).toNat ≤ 0x1000) ∧
    ∀ codes seen fetched word, t.fetches? host = some (codes, seen) →
      seen.fetch = .ok (fetched, word) →
      fetched.pc.toNat = seen.pc.toNat + 2 ∧
      (fetched.pc + 2).toNat = fetched.pc.toNat + 2 ∧
      (fetched.pc - 2).toNat + 2 = fetched.pc.toNat ∧
      (Instruction.nnn ⟨word⟩ + (fetched.register 0).toUInt16).toNat =
        (Instruction.nnn ⟨word⟩).toNat + (fetched.register 0).toNat ∧
      ∀ after, seen.step = .ok (after, word) →
        ∃ o, firstMatch opcodeTable word.toNat = some o ∧
          after.pc.toNat = o.destination ⟨word⟩ seen (seen.pc.toNat + 2) ∧
          after.pc.toNat ≤ 0x10FE := by
  have hempty : s.machine.InRange := by
    intro state hstate
    rw [s.machine.state?_of_booting hnew] at hstate
    cases hstate
  have hrange := Machine.kept_inRange.afterAll host
    (fun m codes _ _ => m.inRange_sample codes)
    (fun _ m startedAt _ _ _ => m.inRange_started startedAt) hempty hcalls
  refine ⟨fun state hstate => ?_, ?_⟩
  · have hstate := hrange state hstate
    exact ⟨hstate.pc, State.live_of_inRange hstate⟩
  · intro codes seen fetched word hfetches hfetch
    obtain ⟨u, hready, -, hseen⟩ := t.fetches?_eq_some host hfetches
    have hsampled := u.machine.inRange_sample codes (Machine.kept_inRange.ready host hrange hready)
    obtain ⟨hnext, hskip, hback, hoffset⟩ := State.fetch_no_wrap hfetch
    refine ⟨hnext, hskip, hback, hoffset, fun after hstep => ?_⟩
    obtain ⟨o, ho, -, hpc, -, -⟩ := State.step_flow hstep
    exact ⟨o, ho, hpc, (State.step_inRange (hsampled seen hseen) hstep).pc⟩

/-- A machine at the time zero whose program calls from inside a call. -/
def calling : Rig Rat Rat := ⟨Machine.new Progress.nestedCalls Config.exact .info, 0⟩

/-- Inside the first call of that program, at 0x204, the return behind the call is pending. -/
theorem first_call_in_range :
    ∃ t state, calling.afterAll Host.exact [.cycle, .tick] = some t ∧
      t.machine.state? = some state ∧ state.stack.pointer.val = 1 ∧ state.pc.toNat = 0x204 ∧
      2 ≤ (state.stack.slots.get 0).toNat ∧ (state.stack.slots.get 0).toNat ≤ 0x1000 := by
  obtain ⟨t, ht⟩ : ∃ t, calling.afterAll Host.exact [.cycle, .tick] = some t := ⟨_, rfl⟩
  have hview : (calling.afterAll Host.exact [.cycle, .tick]).map
      (fun t => t.machine.state?.map fun s => (s.stack.pointer.val, s.pc.toNat)) =
        some (some (1, 0x204)) := by
    decide +kernel
  rw [ht] at hview
  obtain ⟨state, hstate, hpair⟩ := Option.map_eq_some_iff.mp (Option.some.inj hview)
  obtain ⟨hpointer, hpc⟩ := Prod.mk.inj hpair
  obtain ⟨hrange, -⟩ := addresses_never_wrap Host.exact rfl ht
  obtain ⟨hlow, hhigh⟩ := (hrange state hstate).2 0 (by rw [hpointer]; decide)
  exact ⟨t, state, ht, hstate, hpointer, hpc, hlow, hhigh⟩

end Rig

end Chip8
