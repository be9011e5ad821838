/-
Chip8.Proofs.Returns — the sixteen slots hold the return addresses of the
calls that have not returned.

`pendingReturns` reads these addresses off the executed instructions: a
call appends the address of the following word, a return removes the last
one. `CallStack.Holds` says that the slots and the pointer represent such
a list. Calls and returns keep it (`holds_push`, `holds_pop`) and nothing
else touches the stack, so it holds in every run (`play_holds`).

Which call a return belongs to is a matter of brackets. `Balanced` runs
return from all of their calls and from no others, they leave the pending
addresses alone (`foldl_balanced`), and the last pending address comes
from a call with a balanced run after it (`exists_pending_call`).
-/
import Mathlib.Data.List.GetD
import Chip8.Proofs.Bounds
import Chip8.Proofs.ControlFlow
import Chip8.Proofs.Interpreter

namespace Chip8

/-! ## Slots as a list -/

namespace CallStack

/-- The slots hold a list of addresses from the bottom up, and zero above. -/
structure Holds (c : CallStack) (addresses : List Nat) : Prop where
  pointer : c.pointer.val = addresses.length
  slot : ∀ k : Fin 16, (c.slots.get k).toNat = addresses.getD k.val 0

variable {c : CallStack} {addresses : List Nat}

theorem holds_empty : empty.Holds [] where
  pointer := rfl
  slot k := by simp [empty, Vector.get]

theorem length_le_of_holds (h : c.Holds addresses) : addresses.length ≤ 16 := by
  have hlt := c.pointer.isLt
  have hlength := h.pointer
  omega

theorem getD_concat (addresses : List Nat) (a k : Nat) :
    (addresses ++ [a]).getD k 0 =
      if addresses.length = k then a else addresses.getD k 0 := by
  by_cases hk : addresses.length = k
  · rw [if_pos hk, List.getD_append_right _ _ _ _ (by omega), ← hk, Nat.sub_self]
    rfl
  · rw [if_neg hk]
    by_cases hbelow : k < addresses.length
    · exact List.getD_append _ _ _ _ hbelow
    · rw [List.getD_eq_default _ _ (by simp; omega), List.getD_eq_default _ _ (by omega)]

theorem get_set (slots : Slots) (n : Nat) (a : UInt16) (h : n < 16) (k : Fin 16) :
    ((slots.set n a h).get k).toNat = if n = k.val then a.toNat else (slots.get k).toNat := by
  show ((slots.set n a h)[k.val]).toNat = if n = k.val then a.toNat else (slots[k.val]).toNat
  rw [Vector.getElem_set]
  by_cases hk : n = k.val
  · rw [if_pos hk, if_pos hk]
  · rw [if_neg hk, if_neg hk]

theorem holds_push (outside : Slots → Int → UInt16 → Slots) (a : UInt16) (h : c.Holds addresses)
    (hroom : addresses.length < 16) : (c.push outside a).Holds (addresses ++ [a.toNat]) := by
  have hlength := h.pointer
  have hslots : (c.push outside a).slots = c.slots.set c.pointer.val a (by omega) :=
    writeAt_of_lt c.slots (outside c.slots) a (by omega)
  constructor
  · show min (c.pointer.val + 1) 16 = _
    rw [List.length_append, List.length_singleton]
    omega
  · intro k
    rw [hslots, get_set, getD_concat, hlength, h.slot k]

variable {a : Nat}

/-- The last address is on top, in the slot below the pointer. -/
theorem pointer_of_holds (h : c.Holds (addresses ++ [a])) :
    addresses.length < 16 ∧ (c.pointer.val : Int) - 1 = (addresses.length : Nat) := by
  have hlength := h.pointer
  have hlt := c.pointer.isLt
  rw [List.length_append, List.length_singleton] at hlength
  omega

theorem top_of_holds (outside : Slots → Int → UInt16) (h : c.Holds (addresses ++ [a])) :
    (c.top outside).toNat = a := by
  obtain ⟨hlt, hindex⟩ := pointer_of_holds h
  unfold top
  rw [hindex, readAt_of_lt c.slots (outside c.slots) hlt]
  have hslot := h.slot ⟨addresses.length, hlt⟩
  rw [getD_concat, if_pos rfl] at hslot
  exact hslot

theorem holds_pop (outside : Slots → Int → UInt16 → Slots) (h : c.Holds (addresses ++ [a])) :
    (c.pop outside).Holds addresses := by
  obtain ⟨hlt, hindex⟩ := pointer_of_holds h
  have hslots : (c.pop outside).slots = c.slots.set addresses.length 0 hlt := by
    unfold pop
    rw [hindex]
    exact writeAt_of_lt c.slots (outside c.slots) 0 hlt
  constructor
  · show c.pointer.val - 1 = _
    omega
  · intro k
    have hslot := h.slot k
    rw [getD_concat] at hslot
    rw [hslots, get_set]
    by_cases hk : addresses.length = k.val
    · rw [if_pos hk, List.getD_eq_default _ _ (by omega)]
      rfl
    · rw [if_neg hk] at hslot ⊢
      exact hslot

end CallStack

/-! ## Pending returns -/

/-- A call appends the address of the following word, a return removes the last address. -/
def updateReturns (addresses : List Nat) (e : Execution) : List Nat :=
  match e.operation? with
  | some .call => addresses ++ [e.before.pc.toNat + 2]
  | some .ret => addresses.dropLast
  | _ => addresses

/-- The addresses behind the calls that have not returned, the latest call last. -/
def pendingReturns (run : List Execution) : List Nat := run.foldl updateReturns []

theorem updateReturns_of_call {e : Execution} (h : e.operation? = some .call)
    (addresses : List Nat) :
    updateReturns addresses e = addresses ++ [e.before.pc.toNat + 2] := by
  unfold updateReturns
  rw [h]

theorem updateReturns_of_ret {e : Execution} (h : e.operation? = some .ret)
    (addresses : List Nat) : updateReturns addresses e = addresses.dropLast := by
  unfold updateReturns
  rw [h]

theorem updateReturns_of_other {e : Execution} (hcall : e.operation? ≠ some .call)
    (hret : e.operation? ≠ some .ret) (addresses : List Nat) :
    updateReturns addresses e = addresses := by
  unfold updateReturns
  split
  · exact absurd ‹_› hcall
  · exact absurd ‹_› hret
  · rfl

theorem pendingReturns_concat (run : List Execution) (e : Execution) :
    pendingReturns (run ++ [e]) = updateReturns (pendingReturns run) e := by
  unfold pendingReturns
  rw [List.foldl_append]
  rfl

/-! ## Which call a return belongs to -/

/-- A run that returns from all of its calls, and from no others. -/
inductive Balanced : List Execution → Prop
  | nil : Balanced []
  | other {e : Execution} {rest : List Execution} (hcall : e.operation? ≠ some .call)
      (hret : e.operation? ≠ some .ret) (hrest : Balanced rest) : Balanced (e :: rest)
  | nested {call ret : Execution} {inner rest : List Execution}
      (hcall : call.operation? = some .call) (hinner : Balanced inner)
      (hret : ret.operation? = some .ret) (hrest : Balanced rest) :
      Balanced (call :: (inner ++ ret :: rest))

theorem Balanced.append {first second : List Execution} (h : Balanced first)
    (hsecond : Balanced second) : Balanced (first ++ second) := by
  induction h with
  | nil => exact hsecond
  | other hcall hret _ ih => exact .other hcall hret ih
  | nested hcall hinner hret _ _ ih =>
    rw [List.cons_append, List.append_assoc, List.cons_append]
    exact .nested hcall hinner hret ih

/-- A balanced run leaves the pending returns alone. -/
theorem foldl_balanced {run : List Execution} (h : Balanced run) (addresses : List Nat) :
    run.foldl updateReturns addresses = addresses := by
  induction h generalizing addresses with
  | nil => rfl
  | other hcall hret _ ih =>
    rw [List.foldl_cons, updateReturns_of_other hcall hret, ih]
  | nested hcall _ hret _ ihinner ihrest =>
    rw [List.foldl_cons, List.foldl_append, List.foldl_cons, updateReturns_of_call hcall, ihinner,
      updateReturns_of_ret hret, List.dropLast_concat, ihrest]

/-- The call at the start of the rest of a run stays pending while the run is balanced. -/
theorem pendingReturns_of_call {earlier inner : List Execution} {call : Execution}
    (hcall : call.operation? = some .call) (hinner : Balanced inner) :
    pendingReturns (earlier ++ call :: inner) =
      pendingReturns earlier ++ [call.before.pc.toNat + 2] := by
  unfold pendingReturns
  rw [List.foldl_append, List.foldl_cons, updateReturns_of_call hcall, foldl_balanced hinner]

/-- The last pending return comes from a call with a balanced run after it. -/
theorem exists_pending_call (run : List Execution) {addresses : List Nat} {a : Nat}
    (h : pendingReturns run = addresses ++ [a]) :
    ∃ earlier call inner, run = earlier ++ call :: inner ∧ call.operation? = some .call ∧
      Balanced inner ∧ a = call.before.pc.toNat + 2 ∧ pendingReturns earlier = addresses := by
  -- A return uncovers a call that lies further back than the run without it, so the induction is
  -- on the length.
  induction hn : run.length using Nat.strong_induction_on generalizing run addresses a with
  | _ n ih =>
    subst hn
    rcases List.eq_nil_or_concat run with rfl | ⟨front, e, rfl⟩
    · exact absurd h.symm (List.append_ne_nil_of_right_ne_nil _ (List.cons_ne_nil _ _))
    · rw [List.concat_eq_append] at h ih ⊢
      rw [pendingReturns_concat] at h
      by_cases hcall : e.operation? = some .call
      · rw [updateReturns_of_call hcall] at h
        obtain ⟨haddresses, ha⟩ := List.append_inj' h rfl
        exact ⟨front, e, [], rfl, hcall, .nil, (List.cons.inj ha).1.symm, haddresses⟩
      · by_cases hret : e.operation? = some .ret
        · rw [updateReturns_of_ret hret] at h
          obtain ⟨b, hb⟩ : ∃ b, pendingReturns front = addresses ++ [a] ++ [b] := by
            have hne : pendingReturns front ≠ [] := by
              intro hnil
              rw [hnil] at h
              exact absurd h.symm (List.append_ne_nil_of_right_ne_nil _ (List.cons_ne_nil _ _))
            exact ⟨_, by rw [← h]; exact (List.dropLast_concat_getLast hne).symm⟩
          obtain ⟨middle, inside, last, rfl, hinside, hlast, -, hmiddle⟩ :=
            ih front.length (by simp) front hb rfl
          obtain ⟨earlier, call, inner, rfl, hcall', hinner, ha, hearlier⟩ :=
            ih middle.length (by simp) middle hmiddle rfl
          refine ⟨earlier, call, inner ++ inside :: (last ++ e :: []), by simp, hcall', ?_, ha,
            hearlier⟩
          exact hinner.append (.nested hinside hlast hret .nil)
        · rw [updateReturns_of_other hcall hret] at h
          obtain ⟨earlier, call, inner, rfl, hcall', hinner, ha, hearlier⟩ :=
            ih front.length (by simp) front h rfl
          exact ⟨earlier, call, inner ++ [e], by simp, hcall',
            hinner.append (.other hcall hret .nil), ha, hearlier⟩

/-! ## The stack guards -/

namespace Operation

theorem permit_call_eq_error_iff (i : Instruction) (s : State) (f : Fault) :
    permit .call i s = .error f ↔
      s.stack.pointer.val = 16 ∧ f = .stackOverflow i.nnn.toNat :=
  (permit_eq_error_iff .call i s f).trans (by simp [span?])

theorem permit_ret_eq_error_iff (i : Instruction) (s : State) (f : Fault) :
    permit .ret i s = .error f ↔ s.stack.pointer.val = 0 ∧ f = .stackUnderflow :=
  (permit_eq_error_iff .ret i s f).trans (by simp [span?])

theorem room_of_permit_call {i : Instruction} {s : State} (h : permit .call i s = .ok ()) :
    s.stack.pointer.val < 16 := by
  have hlt := s.stack.pointer.isLt
  by_contra hfull
  have herror := (permit_call_eq_error_iff i s _).mpr ⟨by omega, rfl⟩
  rw [h] at herror
  cases herror

theorem nonempty_of_permit_ret {i : Instruction} {s : State} (h : permit .ret i s = .ok ()) :
    s.stack.pointer.val ≠ 0 := by
  intro hempty
  have herror := (permit_ret_eq_error_iff i s _).mpr ⟨hempty, rfl⟩
  rw [h] at herror
  cases herror

end Operation

/-! ## Runs -/

/-- An address that is the last one of a list that is not empty. -/
theorem CallStack.exists_top_of_holds {c : CallStack} {addresses : List Nat}
    (h : c.Holds addresses) (hne : c.pointer.val ≠ 0) :
    ∃ front a, addresses = front ++ [a] := by
  rcases List.eq_nil_or_concat addresses with rfl | ⟨front, a, rfl⟩
  · exact absurd h.pointer hne
  · exact ⟨front, a, List.concat_eq_append⟩

/-- **What one step keeps**: the slots hold the pending returns. -/
theorem State.step_holds {s t : State} {word : UInt16} {addresses : List Nat}
    (h : s.stack.Holds addresses) (hstep : s.step = .ok (t, word)) :
    t.stack.Holds (updateReturns addresses ⟨s, ⟨word⟩, t⟩) := by
  have hpc := ((step_eq_ok_iff s t word).mp hstep).1
  obtain ⟨o, ho, hpermit, -, hstack, -⟩ := step_flow hstep
  have hoperation : Execution.operation? ⟨s, ⟨word⟩, t⟩ = some o := ho
  rw [hstack]
  by_cases hcall : o = .call
  · subst hcall
    have hroom : s.stack.pointer.val < 16 := Operation.room_of_permit_call (s := s.advance) hpermit
    rw [h.pointer] at hroom
    rw [updateReturns_of_call hoperation]
    show (s.stack.push Edge.standard.slot (s.pc + 2)).Holds (addresses ++ [s.pc.toNat + 2])
    rw [← toNat_add_two (by omega)]
    exact CallStack.holds_push _ _ h hroom
  · by_cases hret : o = .ret
    · subst hret
      have hused : s.stack.pointer.val ≠ 0 :=
        Operation.nonempty_of_permit_ret (s := s.advance) hpermit
      obtain ⟨front, a, rfl⟩ := CallStack.exists_top_of_holds h hused
      rw [updateReturns_of_ret hoperation, List.dropLast_concat]
      exact CallStack.holds_pop _ h
    · rw [Operation.stackAfter_of_other _ _ _ hcall hret,
        updateReturns_of_other (by simpa [hoperation] using hcall)
          (by simpa [hoperation] using hret)]
      exact h

namespace Progress

theorem beat_holds {p q : Progress} {b : Beat}
    (hp : p.state.stack.Holds (pendingReturns p.executed)) (hbeat : p.beat b = .ok q) :
    q.state.stack.Holds (pendingReturns q.executed) := by
  rcases (beat_eq_ok_iff p q b).mp hbeat with ⟨codes, after, word, -, hstep, rfl⟩ | ⟨-, rfl⟩
  · rw [executed_execute, pendingReturns_concat]
    have hpressed : (p.state.press codes).stack.Holds (pendingReturns p.executed) := by
      rw [State.press_stack]
      exact hp
    exact State.step_holds hpressed hstep
  · rw [executed_tick]
    exact hp

theorem play_holds {seed : Int} {program : List UInt8} {beats : List Beat} {p : Progress}
    (hplay : (start seed program).play beats = .ok p) :
    p.state.stack.Holds (pendingReturns p.executed) :=
  play_preserves (I := fun p => p.state.stack.Holds (pendingReturns p.executed))
    (fun _ _ _ => beat_holds) CallStack.holds_empty hplay

/-- **The stack is the list of pending returns** after every run. The next call fails exactly if
sixteen returns are pending, the next return exactly if none is; and a return that succeeds goes
to the word behind the one call that has a balanced run after it. -/
theorem stack_refines_pendingReturns {seed : Int} {program : List UInt8} {beats : List Beat}
    {p : Progress} (hplay : (start seed program).play beats = .ok p) :
    (p.state.stack.pointer.val = (pendingReturns p.executed).length ∧
      (pendingReturns p.executed).length ≤ 16 ∧
      ∀ k : Fin 16, (p.state.stack.slots.get k).toNat = (pendingReturns p.executed).getD k.val 0) ∧
    ∀ codes fetched word, (p.state.press codes).fetch = .ok (fetched, word) →
      (firstMatch opcodeTable word.toNat = some .call →
        ∀ f, (p.state.press codes).step = .error f ↔
          (pendingReturns p.executed).length = 16 ∧
            f = .stackOverflow (Instruction.nnn ⟨word⟩).toNat) ∧
      (firstMatch opcodeTable word.toNat = some .ret →
        (∀ f, (p.state.press codes).step = .error f ↔
          pendingReturns p.executed = [] ∧ f = .stackUnderflow) ∧
        ∀ after, (p.state.press codes).step = .ok (after, word) →
          (∃ earlier call inner, p.executed = earlier ++ call :: inner ∧
            call.operation? = some .call ∧ Balanced inner) ∧
          ∀ earlier call inner, p.executed = earlier ++ call :: inner →
            call.operation? = some .call → Balanced inner →
            after.pc.toNat = call.before.pc.toNat + 2) := by
  have hholds := play_holds hplay
  have hlength := hholds.pointer
  refine ⟨⟨hlength, CallStack.length_le_of_holds hholds, hholds.slot⟩, ?_⟩
  intro codes fetched word hfetch
  -- Neither the keys nor the fetch touch the stack.
  have hstack : (p.state.press codes).advance.stack = p.state.stack := by
    rw [State.advance_stack, State.press_stack]
  have hpointer : (p.state.press codes).advance.stack.pointer.val =
      (pendingReturns p.executed).length := by
    rw [hstack]
    exact hlength
  constructor
  · intro hcall f
    rw [State.step_eq_error_iff_permit hfetch hcall, Operation.permit_call_eq_error_iff, hpointer]
  · intro hret
    constructor
    · intro f
      rw [State.step_eq_error_iff_permit hfetch hret, Operation.permit_ret_eq_error_iff, hpointer,
        List.length_eq_zero_iff]
    · intro after hstep
      obtain ⟨o, ho, hpermit, hpc, -, -⟩ := State.step_flow hstep
      obtain rfl : Operation.ret = o := Option.some.inj (hret.symm.trans ho)
      have hused := Operation.nonempty_of_permit_ret hpermit
      rw [hstack] at hused
      obtain ⟨front, a, hfront⟩ := CallStack.exists_top_of_holds hholds hused
      have htop : after.pc.toNat = a := by
        rw [hfront] at hholds
        rw [hpc]
        show ((p.state.press codes).stack.top Edge.standard.address).toNat = a
        rw [State.press_stack]
        exact CallStack.top_of_holds Edge.standard.address hholds
      obtain ⟨earlier, call, inner, hrun, hcall, hinner, -, -⟩ :=
        exists_pending_call p.executed hfront
      refine ⟨⟨earlier, call, inner, hrun, hcall, hinner⟩, ?_⟩
      intro earlier' call' inner' hrun' hcall' hinner'
      rw [hrun', pendingReturns_of_call hcall' hinner'] at hfront
      have ha := (List.append_inj' hfront rfl).2
      rw [htop, (List.cons.inj ha).1]

/-- A program whose first call runs to 0x204, and whose second call, there, to 0x208. -/
def nestedCalls : List UInt8 :=
  [0x22, 0x04, 0x12, 0x02, 0x22, 0x08, 0x00, 0xEE, 0x60, 0x01, 0x00, 0xEE]

/-- After the inner return only the return of the outer call is pending. -/
theorem outer_return_pending :
    ∃ p, (start 0 nestedCalls).play (List.replicate 4 (.cycle [])) = .ok p ∧
      p.state.stack.pointer.val = 1 ∧ (p.state.stack.slots.get 0).toNat = 0x202 := by
  have hpending : ((start 0 nestedCalls).play (List.replicate 4 (.cycle []))).map
      (fun p => pendingReturns p.executed) = .ok [0x202] := by decide +kernel
  cases hplay : (start 0 nestedCalls).play (List.replicate 4 (.cycle [])) with
  | error f =>
    rw [hplay] at hpending
    cases hpending
  | ok p =>
    rw [hplay] at hpending
    have hreturns : pendingReturns p.executed = [0x202] := Except.ok.inj hpending
    obtain ⟨⟨hpointer, -, hslots⟩, -⟩ := stack_refines_pendingReturns hplay
    rw [hreturns] at hpointer hslots
    exact ⟨p, rfl, hpointer, hslots 0⟩

end Progress

end Chip8
