/-
Chip8.Proofs.Bounds — the guards of the instruction set are exact.

`State.Refuses` lists the reasons for which an instruction is refused,
each with its condition on the stack pointer or on I. `execute_bounds`
says that these are the only failures of an execution and that `fetch`
has its one, and that a successful execution never shows what an access
outside an array would have done: it gives the same state for every
`Edge`.

FX55 with X below F is the exception, by design. Its unused slots are
all sent to the first address past memory, and there it relies on a rule
that leaves memory alone; `store_depends_on_edge` shows that a rule which
clamps the address instead writes VF to the last byte.
-/
import Mathlib.Data.List.Basic
import Chip8.Proofs.Coverage
import Chip8.Proofs.Execution

namespace Chip8

/-! ## The reasons for a refusal -/

/-- The bytes from I on that an operation accesses: how, and how many of them. -/
def Operation.span? (i : Instruction) : Operation → Option (Access × Nat)
  | .draw => some (.read, i.n.val)
  | .storeBcd => some (.write, 3)
  | .storeRegisters => some (.write, i.x.val + 1)
  | .loadRegisters => some (.read, i.x.val + 1)
  | _ => none

/-- A state refuses a word, for the reason that the fault names. -/
inductive State.Refuses (s : State) (word : Int) : Fault → Prop
  | noOperation (unlisted : ∀ p ∈ opcodeTable, p.fits word = false) :
      Refuses s word (.unknownInstruction (word % 65536))
  | fullStack (named : firstMatch opcodeTable word = some .call)
      (full : s.stack.pointer.val = 16) :
      Refuses s word (.stackOverflow (Instruction.decode word).nnn.toNat)
  | emptyStack (named : firstMatch opcodeTable word = some .ret)
      (empty : s.stack.pointer.val = 0) :
      Refuses s word .stackUnderflow
  | beyondMemory {o : Operation} {access : Access} {length : Nat}
      (named : firstMatch opcodeTable word = some o)
      (span : o.span? (Instruction.decode word) = some (access, length))
      (nonempty : 0 < length) (beyond : 0xFFF < s.index.toNat + length - 1) :
      Refuses s word (.outOfRange access (s.index.toNat + length - 1))

/-- The stack guard and the memory guard of an operation, told apart. -/
theorem Operation.permit_eq_error_iff (o : Operation) (i : Instruction) (s : State) (f : Fault) :
    o.permit i s = .error f ↔
      (o = .call ∧ s.stack.pointer.val = 16 ∧ f = .stackOverflow i.nnn.toNat) ∨
      (o = .ret ∧ s.stack.pointer.val = 0 ∧ f = .stackUnderflow) ∨
      ∃ access length, o.span? i = some (access, length) ∧ 0 < length ∧
        0xFFF < s.index.toNat + length - 1 ∧
        f = .outOfRange access (s.index.toNat + length - 1) := by
  have hptr := s.stack.pointer.isLt
  cases o with
  | call =>
    by_cases h : s.stack.pointer.val = 16
    · simp [permit, span?, CallStack.size, h, eq_comm]
    · have hlt : ¬ 16 ≤ s.stack.pointer.val := by omega
      simp [permit, span?, CallStack.size, h, hlt]
  | ret =>
    by_cases h : s.stack.pointer.val = 0
    · simp [permit, span?, h, eq_comm]
    · simp [permit, span?, h]
  | draw => simp [permit, span?, Access.permit_eq_error_iff]
  | storeBcd => simp [permit, span?, Access.permit_eq_error_iff]
  | storeRegisters => simp [permit, span?, Access.permit_eq_error_iff]
  | loadRegisters => simp [permit, span?, Access.permit_eq_error_iff]
  | _ => simp [permit, span?]

/-- An execution fails exactly for one of the listed reasons. -/
theorem State.executeWith_eq_error_iff_refuses (edge : Edge) (s : State) (word : Int) (f : Fault) :
    s.executeWith edge word = .error f ↔ s.Refuses word f := by
  rw [executeWith_eq_error_iff]
  constructor
  · rintro (⟨hnone, rfl⟩ | ⟨o, ho, hp⟩)
    · exact .noOperation ((firstMatch_eq_none_iff word).mp hnone)
    · rcases (Operation.permit_eq_error_iff o _ s f).mp hp with
        ⟨rfl, hfull, rfl⟩ | ⟨rfl, hempty, rfl⟩ | ⟨access, length, hspan, hpos, hout, rfl⟩
      · exact .fullStack ho hfull
      · exact .emptyStack ho hempty
      · exact .beyondMemory ho hspan hpos hout
  · intro h
    cases h with
    | noOperation hnone => exact .inl ⟨(firstMatch_eq_none_iff word).mpr hnone, rfl⟩
    | fullStack ho hfull =>
      exact .inr ⟨_, ho, (Operation.permit_eq_error_iff _ _ s _).mpr (.inl ⟨rfl, hfull, rfl⟩)⟩
    | emptyStack ho hempty =>
      exact .inr ⟨_, ho,
        (Operation.permit_eq_error_iff _ _ s _).mpr (.inr (.inl ⟨rfl, hempty, rfl⟩))⟩
    | beyondMemory ho hspan hpos hout =>
      exact .inr ⟨_, ho, (Operation.permit_eq_error_iff _ _ s _).mpr
        (.inr (.inr ⟨_, _, hspan, hpos, hout, rfl⟩))⟩

/-! ## Accesses inside an array -/

theorem readAt_inside {α : Type} {n : Nat} (v : Vector α n) (outside outside' : Int → α) {a : Int}
    (h : 0 ≤ a ∧ a < n) : readAt v outside a = readAt v outside' a := by
  simp only [readAt, dif_pos h]

theorem writeAt_inside {α : Type} {n : Nat} (v : Vector α n)
    (outside outside' : Int → α → Vector α n) {a : Int} (b : α) (h : 0 ≤ a ∧ a < n) :
    writeAt v outside a b = writeAt v outside' a b := by
  simp only [writeAt, dif_pos h]

/-- The rule for stores leaves memory alone at the first address past memory. -/
def Edge.DropsStores (edge : Edge) : Prop := ∀ m b, edge.store m Memory.size b = m

namespace State

variable (edge edge' : Edge) (s : State)

/-- Three digits that fit in memory are stored without regard to what lies outside. -/
theorem storeDecimal_edge (x : Fin 16) (h : s.index.toNat + 2 ≤ 0xFFF) :
    s.storeDecimal edge x = s.storeDecimal edge' x := by
  unfold storeDecimal
  refine congrArg (fun m => { s with memory := m }) ?_
  apply List.foldl_ext
  intro m digit hd
  have hpos : digit.2 < 3 := by
    have := List.snd_lt_of_mem_zipIdx hd
    simpa [decimalDigits] using this
  exact writeAt_inside m _ _ digit.1 (by omega)

/-- The address of a slot that takes part in a block lies in memory if the block does. -/
theorem blockAddress_of_le {x k : Fin 16} (hk : k ≤ x) :
    s.blockAddress x k = (s.index.toNat + k.val : Nat) := if_pos hk

/-- The unused slots of a block have the first address past memory. -/
theorem blockAddress_of_lt {x k : Fin 16} (hk : x < k) : s.blockAddress x k = (4096 : Nat) :=
  if_neg (by omega)

/-- A block of registers that fits in memory is loaded without regard to what lies outside: the
bytes of unused slots are not looked at. -/
theorem loadRegisters_edge (x : Fin 16) (h : s.index.toNat + x.val ≤ 0xFFF) :
    s.loadRegisters edge x = s.loadRegisters edge' x := by
  have hsize : Memory.size = 4096 := rfl
  unfold loadRegisters
  refine congrArg (fun f => { s with registers := Vector.ofFn f }) (funext fun k => ?_)
  by_cases hk : k ≤ x
  · have hval : k.val ≤ x.val := hk
    rw [s.blockAddress_of_le hk]
    simp only [readAt_inside s.memory (edge.fill s.memory) (edge'.fill s.memory)
      (a := (s.index.toNat + k.val : Nat)) (by omega)]
  · rw [s.blockAddress_of_lt (by omega)]
    simp [hsize]

/-- A block of registers that fits in memory is stored without regard to what lies outside, if
there are no unused slots or their stores are dropped. -/
theorem storeRegisters_edge (x : Fin 16) (h : s.index.toNat + x.val ≤ 0xFFF)
    (hdrop : x ≠ 15 → edge.DropsStores ∧ edge'.DropsStores) :
    s.storeRegisters edge x = s.storeRegisters edge' x := by
  unfold storeRegisters
  refine congrArg (fun m => { s with memory := m }) ?_
  apply List.foldl_ext
  intro m k _
  by_cases hk : k ≤ x
  · have hval : k.val ≤ x.val := hk
    rw [s.blockAddress_of_le hk]
    exact writeAt_inside m _ _ (s.register k) (by omega)
  · have hk' : x < k := by omega
    obtain ⟨hd, hd'⟩ := hdrop (by omega)
    have hout : ¬ ((0 : Int) ≤ (4096 : Nat) ∧ ((4096 : Nat) : Int) < (4096 : Nat)) := by omega
    rw [s.blockAddress_of_lt hk']
    simp only [writeAt, dif_neg hout]
    exact (hd m _).trans (hd' m _).symm

theorem drawSprite_edge (x y n : Fin 16) (h : Sprite.InMemory s.index.toNat n.val) :
    s.drawSprite edge x y n = s.drawSprite edge' x y n := by
  rw [drawSprite_eq, drawSprite_eq, s.spriteMask_edge edge edge' x y n h]

end State

namespace CallStack

/-- A push onto a stack with a free slot stays inside the slots. -/
theorem push_edge (outside outside' : Slots → Int → UInt16 → Slots) (s : CallStack)
    (a : UInt16) (h : s.pointer.val < 16) : s.push outside a = s.push outside' a := by
  unfold push
  rw [writeAt_inside s.slots (outside s.slots) (outside' s.slots) a (by omega)]

/-- A pop from a stack with an address on it stays inside the slots. -/
theorem pop_edge (outside outside' : Slots → Int → UInt16 → Slots) (s : CallStack)
    (h : 0 < s.pointer.val) : s.pop outside = s.pop outside' := by
  have hlt := s.pointer.isLt
  unfold pop
  rw [writeAt_inside s.slots (outside s.slots) (outside' s.slots) 0 (by omega)]

theorem top_edge (outside outside' : Slots → Int → UInt16) (s : CallStack)
    (h : 0 < s.pointer.val) : s.top outside = s.top outside' := by
  have hlt := s.pointer.isLt
  exact readAt_inside s.slots (outside s.slots) (outside' s.slots) (by omega)

end CallStack

/-! ## Permitted operations stay inside -/

/-- The effect of a permitted operation does not depend on what lies outside, the unused slots of a
block that is stored apart. -/
theorem Operation.perform_edge (edge edge' : Edge) (o : Operation) (i : Instruction) (s : State)
    (hp : o.permit i s = .ok ())
    (hdrop : o = .storeRegisters → i.x ≠ 15 → edge.DropsStores ∧ edge'.DropsStores) :
    o.perform edge i s = o.perform edge' i s := by
  have hno : ∀ f, o.permit i s ≠ .error f := by simp [hp]
  have hstack := s.stack.pointer.isLt
  cases o with
  | call =>
    have hfree : s.stack.pointer.val ≠ 16 := fun h =>
      hno _ ((permit_eq_error_iff .call i s _).mpr (.inl ⟨rfl, h, rfl⟩))
    simp only [perform, CallStack.push_edge edge.slot edge'.slot s.stack s.pc (by omega)]
  | ret =>
    have hused : s.stack.pointer.val ≠ 0 := fun h =>
      hno _ ((permit_eq_error_iff .ret i s _).mpr (.inr (.inl ⟨rfl, h, rfl⟩)))
    simp only [perform, CallStack.pop_edge edge.slot edge'.slot s.stack (by omega),
      CallStack.top_edge edge.address edge'.address s.stack (by omega)]
  | draw => exact s.drawSprite_edge edge edge' i.x i.y i.n ((Access.permit_eq_ok_iff ..).mp hp)
  | storeBcd =>
    have hin := (Access.permit_eq_ok_iff .write s.index.toNat 3).mp hp
    exact s.storeDecimal_edge edge edge' i.x (by omega)
  | storeRegisters =>
    have hin := (Access.permit_eq_ok_iff .write s.index.toNat (i.x.val + 1)).mp hp
    exact s.storeRegisters_edge edge edge' i.x (by omega) (hdrop rfl)
  | loadRegisters =>
    have hin := (Access.permit_eq_ok_iff .read s.index.toNat (i.x.val + 1)).mp hp
    exact s.loadRegisters_edge edge edge' i.x (by omega)
  | _ => rfl

namespace State

/-- Whatever lies outside, an execution ends in the same way, in failure as in success. -/
theorem executeWith_edge (edge edge' : Edge) (s : State) (word : Int)
    (hdrop : firstMatch opcodeTable word = some .storeRegisters →
      (Instruction.decode word).x ≠ 15 → edge.DropsStores ∧ edge'.DropsStores) :
    s.executeWith edge word = s.executeWith edge' word := by
  cases h : s.executeWith edge word with
  | error f =>
    rw [executeWith_eq_error_iff_refuses] at h
    exact ((executeWith_eq_error_iff_refuses edge' s word f).mpr h).symm
  | ok t =>
    obtain ⟨o, ho, hp, rfl⟩ := (executeWith_eq_ok_iff edge s t word).mp h
    have hperform := o.perform_edge edge edge' (Instruction.decode word) s hp
      (fun heq hx => hdrop (heq ▸ ho) hx)
    exact ((executeWith_eq_ok_iff edge' s _ word).mpr ⟨o, ho, hp, hperform⟩).symm

/-! ## The guards are exact -/

/-- **Exact guards.** The listed reasons are the only failures of an execution, a fetch fails
exactly at the end of memory, and nothing that an access outside an array would have done is ever
seen, apart from the stores of the unused slots of FX55: they have to be dropped. -/
theorem execute_bounds (s : State) (word : Int) :
    (∀ f, s.execute word = .error f ↔ s.Refuses word f) ∧
    ((∃ t, s.execute word = .ok t) ↔ ∀ f, ¬ s.Refuses word f) ∧
    (∀ f, s.fetch = .error f ↔ 0xFFF ≤ s.pc.toNat ∧ f = .outOfRange .fetch (s.pc.toNat + 1)) ∧
    ∀ edge : Edge, (firstMatch opcodeTable word = some .storeRegisters →
        (Instruction.decode word).x ≠ 15 → edge.DropsStores) →
      s.executeWith edge word = s.execute word := by
  have herr : ∀ f, s.execute word = .error f ↔ s.Refuses word f :=
    executeWith_eq_error_iff_refuses Edge.standard s word
  refine ⟨herr, ?_, fetch_eq_error_iff s, ?_⟩
  · constructor
    · rintro ⟨t, ht⟩ f hf
      rw [(herr f).mpr hf] at ht
      cases ht
    · intro hno
      cases h : s.execute word with
      | ok t => exact ⟨t, rfl⟩
      | error f => exact absurd ((herr f).mp h) (hno f)
  · intro edge hdrop
    exact executeWith_edge edge Edge.standard s word fun ho hx => ⟨hdrop ho hx, fun _ _ => rfl⟩

end State

/-- A rule under which accesses outside leave traces, apart from the stores of registers. -/
def Edge.noisy : Edge where
  sprite _ _ := 0xFF
  fill _ _ := 0xFF
  store m _ _ := m
  digit m _ b := m.setIfInBounds 0 b
  slot s _ a := s.setIfInBounds 0 a
  address _ _ := 0x200

/-- At 0xFFD the three bytes of F255 still fit, and no noise is seen; at 0xFFE they do not. -/
theorem State.execute_bounds_at_end :
    Edge.noisy.DropsStores ∧
    State.executeWith Edge.noisy { State.initial ⟨0, 0⟩ with index := 0xFFD } 0xF255 =
      State.execute { State.initial ⟨0, 0⟩ with index := 0xFFD } 0xF255 ∧
    State.execute { State.initial ⟨0, 0⟩ with index := 0xFFE } 0xF255 =
      .error (.outOfRange .write 0x1000) := by
  have hdrop : Edge.noisy.DropsStores := fun _ _ => rfl
  refine ⟨hdrop, (execute_bounds _ 0xF255).2.2.2 Edge.noisy fun _ _ => hdrop, ?_⟩
  have hnamed : firstMatch opcodeTable 0xF255 = some .storeRegisters := by decide
  exact ((execute_bounds _ 0xF255).1 _).mpr
    (.beyondMemory hnamed rfl (by decide) (by decide))

/-- Stores outside memory go to the nearest byte of memory. -/
def Edge.clamping : Edge :=
  { standard with
    store := fun m a b => if a < 0 then m.setIfInBounds 0 b else m.setIfInBounds 4095 b }

/-- With clamped stores the last unused slot of a block ends up in the last byte of memory. -/
theorem State.storeRegisters_clamping (s : State) {x : Fin 16} (hx : x < 15) :
    (s.storeRegisters Edge.clamping x).memory[4095] = s.register 15 := by
  have hlast : List.finRange 16 = (List.finRange 15).map Fin.castSucc ++ [15] := by decide
  unfold storeRegisters
  rw [hlast, List.foldl_append, List.foldl_cons, List.foldl_nil, s.blockAddress_of_lt hx]
  simp [writeAt, Edge.clamping]

/-- With dropped stores the bytes behind a block stay as they are. -/
theorem State.storeRegisters_behind (edge : Edge) (hdrop : edge.DropsStores) (s : State)
    (x : Fin 16) {a : Nat} (ha : a < 4096) (hbehind : s.index.toNat + x.val < a) :
    (s.storeRegisters edge x).memory[a] = s.memory[a] := by
  unfold storeRegisters
  refine List.foldlRecOn (List.finRange 16) _
    (motive := fun m : Memory => m[a] = s.memory[a]) rfl ?_
  intro m hm k _
  by_cases hk : k ≤ x
  · have hval : k.val ≤ x.val := hk
    have hin : (0 : Int) ≤ (s.index.toNat + k.val : Nat) ∧
        ((s.index.toNat + k.val : Nat) : Int) < (4096 : Nat) := by omega
    rw [s.blockAddress_of_le hk, ← hm]
    simp only [writeAt, dif_pos hin]
    exact Vector.getElem_set_ne _ _ (by omega)
  · have hout : ¬ ((0 : Int) ≤ (4096 : Nat) ∧ ((4096 : Nat) : Int) < (4096 : Nat)) := by omega
    rw [s.blockAddress_of_lt (by omega), ← hm]
    simp only [writeAt, dif_neg hout]
    exact congrArg (fun m : Memory => m[a]) (hdrop m _)

/-- **The drop rule of FX55 is observable**: with VF = 1 and clamped stores, FE55 puts a one into
the last byte of memory, which it leaves at zero with dropped ones. -/
theorem State.store_depends_on_edge :
    (((State.initial ⟨0, 0⟩).setRegister 15 1).execute 0xFE55).map (·.memory.getD 4095 0) =
      .ok 0 ∧
    (((State.initial ⟨0, 0⟩).setRegister 15 1).executeWith Edge.clamping 0xFE55).map
      (·.memory.getD 4095 0) = .ok 1 := by
  have hget : ∀ m : Memory, m.getD 4095 0 = m[4095] := fun m => by simp [Vector.getD]
  have hdropped : ((State.initial ⟨0, 0⟩).setRegister 15 1).execute 0xFE55 =
      .ok (((State.initial ⟨0, 0⟩).setRegister 15 1).storeRegisters Edge.standard 14) := rfl
  have hclamped : ((State.initial ⟨0, 0⟩).setRegister 15 1).executeWith Edge.clamping 0xFE55 =
      .ok (((State.initial ⟨0, 0⟩).setRegister 15 1).storeRegisters Edge.clamping 14) := rfl
  constructor
  · rw [hdropped, Except.map, hget,
      storeRegisters_behind _ (fun _ _ => rfl) _ _ (by decide) (by decide)]
    decide +kernel
  · rw [hclamped, Except.map, hget, storeRegisters_clamping _ (by decide)]
    rfl

end Chip8
