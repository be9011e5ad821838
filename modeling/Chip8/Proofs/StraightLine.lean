/-
Chip8.Proofs.StraightLine — programs without branches run in order.

A word is straight if its operation writes neither the program counter nor
the stack nor memory. A program of such words is laid out with the high
byte of each word first (`encode`), so the k-th word is at 0x200 + 2 k in
the state in which the program starts (`wordAt_start`).

`Progress.InOrder` is the invariant of its runs: memory is that of the
start, the program counter has moved past just the words that were
executed, and none of these reached beyond memory. A tick keeps it; a
cycle executes the next word, or is refused because this word draws or
loads bytes beyond memory (`inOrder_cycle`). `Rig.Proceeds` carries it over
to machines, call by call.
-/
import Chip8.Proofs.Bounds
import Chip8.Proofs.Course
import Chip8.Proofs.Refinement
import Chip8.Proofs.WriteSets

namespace Chip8

/-! ## Words in memory -/

/-- The bytes of a list of words, the high byte of each word first. -/
def encode (words : List UInt16) : List UInt8 :=
  words.flatMap fun w => [UInt8.ofNat (w.toNat / 256), UInt8.ofNat (w.toNat % 256)]

theorem length_encode (words : List UInt16) : (encode words).length = 2 * words.length := by
  induction words with
  | nil => rfl
  | cons w rest ih =>
    show (encode rest).length + 2 = _
    rw [ih, List.length_cons]
    omega

/-- The two bytes of the word at a place. -/
theorem getD_encode (words : List UInt16) (k : Nat) :
    ((encode words).getD (2 * k) 0).toNat = (words.getD k 0).toNat / 256 ∧
      ((encode words).getD (2 * k + 1) 0).toNat = (words.getD k 0).toNat % 256 := by
  induction words generalizing k with
  | nil => simp [encode]
  | cons w rest ih =>
    have hw := w.toNat_lt
    cases k with
    | zero =>
      exact ⟨UInt8.toNat_ofNat_of_lt' (by show _ < 256; omega),
        UInt8.toNat_ofNat_of_lt' (by show _ < 256; omega)⟩
    | succ k => exact ih k

/-- The byte at an address after a load. -/
theorem Memory.getD_load (m : Memory) (start : Nat) (bytes : List UInt8) {a : Nat}
    (ha : a < 4096) :
    (m.load start bytes).getD a 0 =
      if start ≤ a ∧ a < start + bytes.length then bytes.getD (a - start) 0 else m.getD a 0 := by
  have hload := m.getElem_load start bytes a ha
  have hold : m.getD a 0 = m[a] := getD_eq_of_getElem ⟨a, ha⟩ rfl
  rw [hold]
  exact getD_eq_of_getElem ⟨a, ha⟩ hload

namespace State

/-- A word in memory has the high byte first. -/
theorem toNat_wordAt (s : State) (a : Nat) :
    (s.wordAt a).toNat = 256 * (s.memory.getD a 0).toNat + (s.memory.getD (a + 1) 0).toNat := by
  have hhigh := (s.memory.getD a 0).toNat_lt
  have hlow := (s.memory.getD (a + 1) 0).toNat_lt
  have hshift : ((s.memory.getD a 0).toUInt16 <<< 8).toNat = (s.memory.getD a 0).toNat <<< 8 := by
    rw [UInt16.toNat_shiftLeft, UInt8.toNat_toUInt16]
    have height : (8 : UInt16).toNat % 16 = 8 := rfl
    rw [height, Nat.shiftLeft_eq]
    omega
  unfold wordAt
  rw [UInt16.toNat_or, hshift, UInt8.toNat_toUInt16, ← Nat.shiftLeft_add_eq_or_of_lt hlow,
    Nat.shiftLeft_eq]
  omega

/-- A program lies at 0x200 when it starts. -/
theorem getD_start (seed : Int) {program : List UInt8} {k : Nat} (hk : k < program.length)
    (hsize : program.length ≤ Memory.programLimit) :
    (start seed program).memory.getD (0x200 + k) 0 = program.getD k 0 := by
  have hlimit : Memory.programLimit = 3584 := rfl
  have hstart : Memory.programStart = 0x200 := rfl
  have hload := Memory.initial.getD_load 0x200 program (a := 0x200 + k) (by omega)
  rw [if_pos (by omega), Nat.add_sub_cancel_left] at hload
  exact hload

/-- The words of a program lie one after another from 0x200 on. -/
theorem wordAt_start (seed : Int) {words : List UInt16} {k : Nat} (hk : k < words.length)
    (hsize : words.length ≤ 1792) :
    (start seed (encode words)).wordAt (0x200 + 2 * k) = words.getD k 0 := by
  have hlimit : Memory.programLimit = 3584 := rfl
  have hlength := length_encode words
  have hfits : (encode words).length ≤ Memory.programLimit := by omega
  obtain ⟨hhigh, hlow⟩ := getD_encode words k
  rw [← UInt16.toNat_inj, toNat_wordAt, Nat.add_assoc, getD_start seed (by omega) hfits,
    getD_start seed (by omega) hfits, hhigh, hlow]
  omega

end State

/-! ## Straight words -/

/-- The operations that write neither the program counter nor the stack nor memory. -/
def Operation.isStraight : Operation → Bool
  | .systemCall | .clearScreen | .loadImmediate | .addImmediate | .copy | .or | .and | .xor | .add
  | .subtract | .shiftRight | .subtractReverse | .shiftLeft | .loadIndex | .random | .draw
  | .readDelayTimer | .setDelayTimer | .setSoundTimer | .addIndex | .fontAddress
  | .loadRegisters => true
  | _ => false

/-- A word of one of these operations. -/
def Straight (word : UInt16) : Prop :=
  ∃ o ∈ firstMatch opcodeTable word.toNat, o.isStraight = true

instance (word : UInt16) : Decidable (Straight word) :=
  inferInstanceAs (Decidable (∃ o ∈ firstMatch opcodeTable word.toNat, o.isStraight = true))

/-- The bytes from I on that a word draws or loads end at the address `last`, beyond memory. -/
def State.Overreaches (s : State) (word : UInt16) (last : Nat) : Prop :=
  0xFFF < last ∧
    ((firstMatch opcodeTable word.toNat = some .draw ∧ 0 < (Instruction.mk word).n.val ∧
        last = s.index.toNat + (Instruction.mk word).n.val - 1) ∨
      (firstMatch opcodeTable word.toNat = some .loadRegisters ∧
        last = s.index.toNat + (Instruction.mk word).x.val))

namespace Operation

variable {o : Operation}

/-- The straight operations are those whose write sets hold none of these parts, in any state. -/
theorem isStraight_iff :
    o.isStraight = true ↔
      ∀ i s, ¬ o.Writes i s .pc ∧ ¬ o.Writes i s .stack ∧ ∀ a, ¬ o.Writes i s (.memory a) := by
  constructor
  · intro ho i s
    cases o <;> simp_all [isStraight, Writes, branches]
  · intro h
    obtain ⟨hpc, hstack, hmemory⟩ := h ⟨0⟩ (State.initial ⟨0, 0⟩)
    cases o with
    | ret | jump | call | jumpOffset | skipEqImmediate | skipNeImmediate | skipEqRegister
    | skipNeRegister | skipKeyPressed | skipKeyNotPressed => exact absurd (.inl rfl) hpc
    | waitKey => exact absurd (.inr ⟨rfl, Keypad.get_none⟩) hpc
    | storeBcd => exact absurd (.inl ⟨rfl, by decide⟩) (hmemory 0)
    | storeRegisters => exact absurd (.inr ⟨rfl, by decide⟩) (hmemory 0)
    | _ => rfl

/-- A straight operation stays in its place and leaves memory alone. -/
theorem perform_of_isStraight (ho : o.isStraight = true) (i : Instruction) (s : State) :
    (o.perform Edge.standard i s).pc = s.pc ∧ (o.perform Edge.standard i s).memory = s.memory := by
  obtain ⟨hpc, -, hmemory⟩ := isStraight_iff.mp ho i s
  refine ⟨o.perform_frame i s hpc, Vector.ext fun j hj => ?_⟩
  exact o.perform_frame i s (hmemory ⟨j, hj⟩)

/-- A straight word is refused just where it overreaches. -/
theorem permit_eq_error_iff_overreaches {word : UInt16}
    (ho : firstMatch opcodeTable word.toNat = some o) (hstraight : o.isStraight = true)
    (s : State) (f : Fault) :
    o.permit ⟨word⟩ s = .error f ↔
      ∃ last, s.Overreaches word last ∧ f = .outOfRange .read last := by
  unfold State.Overreaches
  simp only [ho, Option.some.injEq]
  cases o with
  | draw =>
    rw [permit, Access.permit_eq_error_iff]
    constructor
    · rintro ⟨hpos, hout, rfl⟩
      exact ⟨_, ⟨hout, .inl ⟨rfl, hpos, rfl⟩⟩, rfl⟩
    · rintro ⟨last, ⟨hout, ⟨-, hpos, rfl⟩ | ⟨hdraw, -⟩⟩, rfl⟩
      · exact ⟨hpos, hout, rfl⟩
      · cases hdraw
  | loadRegisters =>
    rw [permit, Access.permit_eq_error_iff]
    constructor
    · rintro ⟨-, hout, rfl⟩
      exact ⟨_, ⟨hout, .inr ⟨rfl, rfl⟩⟩, rfl⟩
    · rintro ⟨last, ⟨hout, ⟨hload, -⟩ | ⟨-, rfl⟩⟩, rfl⟩
      · cases hload
      · exact ⟨Nat.succ_pos _, hout, rfl⟩
  | _ =>
    simp_all [permit, isStraight]

end Operation

namespace State

/-- **A step of a straight word.** The word at the program counter is carried out, which moves past
it and leaves memory alone; or it overreaches and is refused. -/
theorem step_straight {s : State} (hpc : s.pc.toNat < 0xFFF)
    (hstraight : Straight (s.wordAt s.pc.toNat)) :
    (∃ after, s.step = .ok (after, s.wordAt s.pc.toNat) ∧ after.pc.toNat = s.pc.toNat + 2 ∧
      after.memory = s.memory ∧ ∀ last, ¬ s.Overreaches (s.wordAt s.pc.toNat) last) ∨
    ∃ last, s.Overreaches (s.wordAt s.pc.toNat) last ∧
      s.step = .error (.outOfRange .read last) := by
  obtain ⟨o, ho, ho'⟩ := hstraight
  have hpermit := Operation.permit_eq_error_iff_overreaches ho ho' s.advance
  have hfetch : s.fetch = .ok (s.advance, s.wordAt s.pc.toNat) :=
    (fetch_eq_ok_iff s _ _).mpr ⟨hpc, rfl, rfl⟩
  cases hstep : s.step with
  | ok result =>
    obtain ⟨after, word⟩ := result
    obtain ⟨-, rfl, o', hnamed, hok, rfl⟩ := (step_eq_ok_iff s after word).mp hstep
    obtain rfl : o = o' := Option.some.inj (ho.symm.trans hnamed)
    obtain ⟨hplace, hmemory⟩ := Operation.perform_of_isStraight ho' ⟨s.wordAt s.pc.toNat⟩ s.advance
    refine .inl ⟨_, rfl, ?_, hmemory, fun last hover => ?_⟩
    · rw [hplace]
      exact toNat_add_two (by omega)
    · have herror := (hpermit _).mpr ⟨last, hover, rfl⟩
      rw [hok] at herror
      cases herror
  | error f =>
    obtain ⟨last, hover, rfl⟩ := (hpermit f).mp ((step_eq_error_iff_permit hfetch ho f).mp hstep)
    exact .inr ⟨last, hover, rfl⟩

end State

/-! ## Runs -/

@[simp] theorem State.press_memory (s : State) (codes : List Int) :
    (s.press codes).memory = s.memory := by
  unfold press
  rfl

namespace Progress

/-- A run that has executed the first words of a program one after another, and none of them
overreached. -/
structure InOrder (seed : Int) (words : List UInt16) (p : Progress) : Prop where
  reached : ∃ beats, (start seed (encode words)).play beats = .ok p
  order : p.executed.map (fun e => e.instruction.raw) = words.take p.executed.length
  inside : ∀ e ∈ p.executed, ∀ last, ¬ e.before.Overreaches e.instruction.raw last
  pc : p.state.pc.toNat = 0x200 + 2 * p.executed.length
  memory : p.state.memory = (State.start seed (encode words)).memory

variable {seed : Int} {words : List UInt16} {p : Progress}

/-- A run that goes on with one more beat. -/
theorem reached_beat {q : Progress} {b : Beat}
    (h : ∃ beats, (start seed (encode words)).play beats = .ok p) (hbeat : p.beat b = .ok q) :
    ∃ beats, (start seed (encode words)).play beats = .ok q := by
  obtain ⟨beats, hplay⟩ := h
  refine ⟨beats ++ [b], (play_append_eq_ok_iff _ _ _ _).mpr ⟨p, hplay, ?_⟩⟩
  rw [play_singleton, hbeat]

theorem inOrder_start (seed : Int) (words : List UInt16) :
    (start seed (encode words)).InOrder seed words where
  reached := ⟨[], rfl⟩
  order := rfl
  inside e he := by cases he
  pc := rfl
  memory := rfl

theorem inOrder_tick (h : p.InOrder seed words) : p.tick.InOrder seed words where
  reached := reached_beat h.reached ((beat_eq_ok_iff p _ .tick).mpr (.inr ⟨rfl, rfl⟩))
  order := by rw [executed_tick]; exact h.order
  inside := by rw [executed_tick]; exact h.inside
  pc := by rw [executed_tick]; exact h.pc
  memory := h.memory

variable {word : UInt16}

/-- The word at the program counter is the first one that has not been executed. -/
theorem wordAt_pc (h : p.InOrder seed words) (hsize : words.length ≤ 1792)
    (hnext : words[p.executed.length]? = some word) (codes : List Int) :
    (p.state.press codes).pc.toNat < 0xFFF ∧
      (p.state.press codes).wordAt (p.state.press codes).pc.toNat = word := by
  obtain ⟨hmore, -⟩ := List.getElem?_eq_some_iff.mp hnext
  rw [State.press_pc, h.pc]
  constructor
  · omega
  · have hstart := State.wordAt_start seed hmore hsize
    rw [List.getD_eq_getElem?_getD, hnext, Option.getD_some] at hstart
    rw [← hstart]
    unfold State.wordAt
    rw [State.press_memory, h.memory]

theorem inOrder_execute (h : p.InOrder seed words) (hnext : words[p.executed.length]? = some word)
    {codes : List Int} {after : State} (hstep : (p.state.press codes).step = .ok (after, word))
    (hpc : after.pc.toNat = p.state.pc.toNat + 2) (hmemory : after.memory = p.state.memory)
    (hinside : ∀ last, ¬ (p.state.press codes).Overreaches word last) :
    (p.execute ⟨p.state.press codes, ⟨word⟩, after⟩).InOrder seed words where
  reached := reached_beat h.reached
    ((beat_eq_ok_iff p _ (.cycle codes)).mpr (.inl ⟨codes, after, word, rfl, hstep, rfl⟩))
  order := by
    rw [executed_execute, List.map_append, h.order, List.length_append, List.length_singleton,
      List.take_add_one, hnext]
    rfl
  inside := by
    intro e he
    rw [executed_execute, List.mem_append, List.mem_singleton] at he
    rcases he with he | rfl
    · exact h.inside e he
    · exact hinside
  pc := by
    have hp := h.pc
    rw [executed_execute, List.length_append, List.length_singleton]
    show after.pc.toNat = _
    omega
  memory := hmemory.trans h.memory

/-- **A cycle of a straight-line program** executes the first word that has not been executed, and
the run is still in order; or this word overreaches, and the cycle is refused. -/
theorem inOrder_cycle (h : p.InOrder seed words) (hsize : words.length ≤ 1792)
    (hstraight : ∀ w ∈ words, Straight w) (hnext : words[p.executed.length]? = some word)
    (codes : List Int) :
    (∃ after, (p.state.press codes).step = .ok (after, word) ∧
      (p.execute ⟨p.state.press codes, ⟨word⟩, after⟩).InOrder seed words) ∨
    ∃ last, (p.state.press codes).Overreaches word last ∧
      (p.state.press codes).step = .error (.outOfRange .read last) := by
  obtain ⟨hpc, hword⟩ := wordAt_pc h hsize hnext codes
  have hstep := State.step_straight hpc (hword ▸ hstraight word (List.mem_of_getElem? hnext))
  rw [hword] at hstep
  rcases hstep with ⟨after, hok, hafter, hmemory, hinside⟩ | hrefused
  · rw [State.press_pc] at hafter
    rw [State.press_memory] at hmemory
    exact .inl ⟨after, hok, inOrder_execute h hnext hok hafter hmemory hinside⟩
  · exact .inr hrefused

end Progress

/-! ## Machines -/

/-- Whether a call is a cycle. -/
def Call.isCycle {ω : Type} : Call ω → Bool
  | .cycle => true
  | _ => false

namespace Rig

section

variable {ω τ : Type} [OfNat τ 0] [Sub τ] [HasRates τ] {host : Host ω τ} {s : Rig ω τ}
  {words : List UInt16} {n : Nat} {seed : Int} {p : Progress}

/-- A machine after `n` cycles of a straight-line program: they were all executed, or one of them
was refused and has halted the machine. -/
inductive Proceeds (words : List UInt16) (n : Nat) (s : Rig ω τ) (p : Progress) : Prop
  | onward (agrees : s.machine.Agrees p) (running : ∃ g, s.machine.life = .running g)
      (all : p.executed.length = n)
  | refused {codes : List Int} {word : UInt16} {last : Nat} (before : p.executed.length < n)
      (next : words[p.executed.length]? = some word)
      (beyond : (p.state.press codes).Overreaches word last)
      (halted : s.machine.life = .halted (some (.fault (.outOfRange .read last))))
      (state : s.machine.state? = some (p.state.press codes))
      (cycles : s.machine.cycles = p.executed.length)
      (previous : s.machine.previous = p.executed.getLast?.map fun e => e.instruction)

/-- What a machine looks like after a cycle whose step fails. -/
theorem halted_of_fault (h : s.machine.Agrees p) {u : Rig ω τ} (hready : s.ready host = (u, none))
    {f : Fault} (hstep : (p.state.press (host.pressedKeys u.world)).step = .error f) :
    (s.cycle host).1.machine.life = .halted (some (.fault f)) ∧
      (s.cycle host).1.machine.state? = some (p.state.press (host.pressedKeys u.world)) ∧
      (s.cycle host).1.machine.cycles = p.executed.length ∧
      (s.cycle host).1.machine.previous = p.executed.getLast?.map fun e => e.instruction := by
  obtain ⟨m, journal, world, hsampled, -, hseen, hcycle⟩ := cycle_eq_of_fault h hready hstep
  have hcycles := hsampled.cycles
  have hprevious := hsampled.previous
  rw [Progress.executed_press] at hcycles hprevious
  rw [hcycle]
  exact ⟨rfl, hseen, hcycles, hprevious⟩

variable (host) in
omit [OfNat τ 0] [Sub τ] in
/-- A machine that has just booted has executed nothing. -/
theorem proceeds_boot {config : Config τ} {threshold : Level}
    (hnew : s.machine = Machine.new (encode words) config threshold)
    (hseed : Random.isSeed config.seed = true) (hsize : words.length ≤ 1792) :
    (s.boot host).1.Proceeds words 0 (Progress.start config.seed (encode words)) := by
  have hfits : (encode words).length ≤ Memory.programLimit := by
    have hlimit : Memory.programLimit = 3584 := rfl
    rw [length_encode]
    omega
  have hstart : s.machine.Agrees (Progress.start config.seed (encode words)) := by
    rw [hnew]
    exact Machine.agrees_new threshold hseed hfits
  have hbooting : s.machine.status = .booting := by
    rw [hnew]
    rfl
  obtain ⟨journal, hboot⟩ := s.boot_of_accepted host hstart.live hstart.accepted
  rw [hboot]
  exact .onward (Machine.agrees_journal (Machine.agrees_started hstart hbooting _) journal)
    ⟨true, rfl⟩ rfl

/-- A cycle executes the next word or is refused; after a refusal it does nothing. -/
theorem proceeds_cycle (hobs : host.observer.NeverHalts) (hsize : words.length ≤ 1792)
    (hstraight : ∀ w ∈ words, Straight w) (hp : p.InOrder seed words)
    (h : s.Proceeds words n p) (hn : n < words.length) :
    ∃ q, q.InOrder seed words ∧ (s.cycle host).1.Proceeds words (n + 1) q := by
  cases h with
  | onward hagrees hrunning hall =>
    obtain ⟨g, hlife⟩ := hrunning
    have hready := s.ready_of_running host hlife
    have hnext : words[p.executed.length]? = some words[n] := by
      rw [hall]
      exact List.getElem?_eq_getElem hn
    rcases Progress.inOrder_cycle hp hsize hstraight hnext (host.pressedKeys s.world) with
      ⟨after, hstep, hq⟩ | ⟨last, hbeyond, hstep⟩
    · obtain ⟨-, hafter, hgoes, -⟩ := agrees_cycle hobs hagrees hready hstep
      refine ⟨_, hq, .onward hafter hgoes ?_⟩
      rw [Progress.executed_execute, List.length_append, List.length_singleton, hall]
    · obtain ⟨hhalted, hstate, hcycles, hprevious⟩ := halted_of_fault hagrees hready hstep
      exact ⟨p, hp, .refused (by omega) hnext hbeyond hhalted hstate hcycles hprevious⟩
  | refused hbefore hnext hbeyond hhalted hstate hcycles hprevious =>
    rw [s.cycle_of_not_ready host (s.ready_of_halted host hhalted)]
    exact ⟨p, hp, .refused (by omega) hnext hbeyond hhalted hstate hcycles hprevious⟩

variable (host) in
omit [OfNat τ 0] [Sub τ] in
/-- A tick executes nothing; after a refusal it does nothing. -/
theorem proceeds_tick (hp : p.InOrder seed words) (h : s.Proceeds words n p) :
    ∃ q, q.InOrder seed words ∧ (s.tick host).1.Proceeds words n q := by
  cases h with
  | onward hagrees hrunning hall =>
    obtain ⟨g, hlife⟩ := hrunning
    obtain ⟨-, hafter, hgoes⟩ := agrees_ticked hagrees (s.ready_of_running host hlife)
    exact ⟨p.tick, Progress.inOrder_tick hp, .onward hafter hgoes (by rw [p.executed_tick, hall])⟩
  | refused hbefore hnext hbeyond hhalted hstate hcycles hprevious =>
    rw [s.tick_of_not_ready host (s.ready_of_halted host hhalted)]
    exact ⟨p, hp, .refused hbefore hnext hbeyond hhalted hstate hcycles hprevious⟩

end

section

variable {ω τ : Type} [OfNat τ 0] [OfNat τ 1] [OfNat τ 4] [Add τ] [Sub τ] [Mul τ] [Div τ]
  [LE τ] [DecidableLE τ] [HasRates τ] {host : Host ω τ} {s : Rig ω τ}
  {words : List UInt16} {n : Nat} {seed : Int} {p : Progress}

/-- **What a history does** to a machine with a straight-line program, by induction on its calls. -/
theorem proceeds_afterAll (hobs : host.observer.NeverHalts) (hsize : words.length ≤ 1792)
    (hstraight : ∀ w ∈ words, Straight w) {calls : List (Call ω)} (hplain : ∀ c ∈ calls, c.Plain)
    (hp : p.InOrder seed words) (h : s.Proceeds words n p)
    (hcount : n + calls.countP Call.isCycle ≤ words.length) :
    ∃ t q, s.afterAll host calls = some t ∧ q.InOrder seed words ∧
      t.Proceeds words (n + calls.countP Call.isCycle) q := by
  induction calls generalizing s n p with
  | nil => exact ⟨s, p, rfl, hp, h⟩
  | cons c rest ih =>
    have hrest : ∀ c' ∈ rest, c'.Plain := fun c' hc' => hplain c' (List.mem_cons_of_mem c hc')
    cases hplain c List.mem_cons_self with
    | cycle =>
      rw [List.countP_cons_of_pos rfl] at hcount ⊢
      obtain ⟨q, hq, hproceeds⟩ := proceeds_cycle hobs hsize hstraight hp h (by omega)
      obtain ⟨t, r, ht, hr, hend⟩ := ih hrest hq hproceeds (by omega)
      refine ⟨t, r, (afterAll_cons_eq_some host).mpr ⟨_, rfl, ht⟩, hr, ?_⟩
      rw [Nat.add_comm _ 1, ← Nat.add_assoc]
      exact hend
    | tick =>
      rw [List.countP_cons_of_neg Bool.false_ne_true] at hcount ⊢
      obtain ⟨q, hq, hproceeds⟩ := proceeds_tick host hp h
      obtain ⟨t, r, ht, hr, hend⟩ := ih hrest hq hproceeds hcount
      exact ⟨t, r, (afterAll_cons_eq_some host).mpr ⟨_, rfl, ht⟩, hr, hend⟩
    | affect f =>
      rw [List.countP_cons_of_neg Bool.false_ne_true] at hcount ⊢
      have hsame : (⟨s.machine, f s.world⟩ : Rig ω τ).Proceeds words n p := by
        cases h with
        | onward hagrees hrunning hall => exact .onward hagrees hrunning hall
        | refused hbefore hnext hbeyond hhalted hstate hcycles hprevious =>
          exact .refused hbefore hnext hbeyond hhalted hstate hcycles hprevious
      obtain ⟨t, r, ht, hr, hend⟩ := ih hrest hp hsame hcount
      exact ⟨t, r, (afterAll_cons_eq_some host).mpr ⟨_, rfl, ht⟩, hr, hend⟩

variable (host) in
/-- **Straight-line programs execute in order.** A machine boots with the words of such a program,
and then goes through `n` cycles, no more than there are words, with ticks and changes of the world
in between. It has executed the first words of the program one after another, the last of them is
the previous instruction, and the program counter is past them. Either these are `n` words and the
machine runs. Or it has halted because the word after them overreaches in the state that it was
fetched from, the first word of the program that does. -/
theorem straight_line_in_order (hobs : host.observer.NeverHalts) {config : Config τ}
    {threshold : Level} (hnew : s.machine = Machine.new (encode words) config threshold)
    (hseed : Random.isSeed config.seed = true) (hsize : words.length ≤ 1792)
    (hstraight : ∀ w ∈ words, Straight w) {calls : List (Call ω)} (hplain : ∀ c ∈ calls, c.Plain)
    (hcount : calls.countP Call.isCycle ≤ words.length) :
    ∃ (t : Rig ω τ) (p : Progress) (state : State),
      s.afterAll host (.boot :: calls) = some t ∧ p.InOrder config.seed words ∧
      t.machine.cycles = p.executed.length ∧
      t.machine.previous.map (·.raw) = (words.take p.executed.length).getLast? ∧
      t.machine.state? = some state ∧ state.pc.toNat = 0x200 + 2 * p.executed.length ∧
      ((p.executed.length = calls.countP Call.isCycle ∧ t.machine.status = .running ∧
          state = p.state) ∨
        (p.executed.length < calls.countP Call.isCycle ∧ t.machine.status = .halted ∧
          ∃ codes word last, state = p.state.press codes ∧
            words[p.executed.length]? = some word ∧ state.Overreaches word last ∧
            t.machine.error? = some (.fault (.outOfRange .read last)))) := by
  have hboot := proceeds_boot host hnew hseed hsize
  obtain ⟨t, p, ht, hp, hproceeds⟩ := proceeds_afterAll hobs hsize hstraight hplain
    (Progress.inOrder_start config.seed words) hboot (by omega)
  rw [Nat.zero_add] at hproceeds
  have hlast : (p.executed.getLast?.map fun e => e.instruction).map (·.raw) =
      (words.take p.executed.length).getLast? := by
    rw [← hp.order, List.getLast?_map, Option.map_map]
    rfl
  have hcalls : s.afterAll host (.boot :: calls) = some t :=
    (afterAll_cons_eq_some host).mpr ⟨_, rfl, ht⟩
  cases hproceeds with
  | onward hagrees hrunning hall =>
    obtain ⟨g, hlife⟩ := hrunning
    exact ⟨t, p, p.state, hcalls, hp, hagrees.cycles, by rw [hagrees.previous, hlast],
      Machine.state?_of_agrees hagrees hlife, hp.pc,
      .inl ⟨hall, Machine.status_of_running _ hlife, rfl⟩⟩
  | @refused codes word last hbefore hnext hbeyond hhalted hstate hcycles hprevious =>
    refine ⟨t, p, p.state.press codes, hcalls, hp, hcycles, by rw [hprevious, hlast], hstate,
      by rw [State.press_pc, hp.pc], .inr ⟨hbefore, ?_, codes, word, last, rfl, hnext, hbeyond, ?_⟩⟩
    · rw [Machine.status_eq, hhalted]
      rfl
    · rw [Machine.error?_eq, hhalted]
      rfl

end

/-- A program that draws two rows from 0xFFF on. -/
def reaching : Rig (List Int) Rat :=
  ⟨Machine.new (encode [0x6A02, 0xAFFF, 0xD012, 0x7A01]) Config.exact .info, []⟩

/-- The first two words are executed; the third one reaches beyond memory and is refused. -/
theorem straight_line_refused :
    ∃ (t : Rig (List Int) Rat) (p : Progress),
      reaching.afterAll Host.holding [.boot, .cycle, .tick, .cycle, .cycle, .cycle] = some t ∧
      p.InOrder 0 [0x6A02, 0xAFFF, 0xD012, 0x7A01] ∧ p.executed.length = 2 ∧
      t.machine.previous.map (·.raw) = some 0xAFFF ∧
      ∃ last, t.machine.error? = some (.fault (.outOfRange .read last)) := by
  have hnew : reaching.machine =
      Machine.new (encode [0x6A02, 0xAFFF, 0xD012, 0x7A01]) Config.exact .info := rfl
  have hview : (reaching.afterAll Host.holding
      [.boot, .cycle, .tick, .cycle, .cycle, .cycle]).map (·.machine.cycles) = some 2 := by
    decide +kernel
  have hstraight : ∀ w ∈ [0x6A02, 0xAFFF, 0xD012, 0x7A01], Straight w := by
    intro w hw
    simp only [List.mem_cons, List.not_mem_nil, or_false] at hw
    rcases hw with rfl | rfl | rfl | rfl
    all_goals decide
  have hplain : ∀ c ∈ [Call.cycle, .tick, .cycle, .cycle, .cycle],
      (c : Call (List Int)).Plain := by
    intro c hc
    simp only [List.mem_cons, List.not_mem_nil, or_false] at hc
    rcases hc with rfl | rfl | rfl | rfl | rfl
    · exact .cycle
    · exact .tick
    · exact .cycle
    · exact .cycle
    · exact .cycle
  obtain ⟨t, p, state, ht, hp, hcycles, hprevious, -, -, hend⟩ :=
    straight_line_in_order Host.holding (fun m i w error => List.not_mem_nil) hnew
      (by decide) (by decide) hstraight hplain (by decide)
  rw [ht, Option.map_some, Option.some.injEq, hcycles] at hview
  rw [hview] at hprevious
  refine ⟨t, p, ht, hp, hview, hprevious, ?_⟩
  rcases hend with ⟨hall, -⟩ | ⟨-, -, codes, word, last, -, -, -, herror⟩
  · rw [hview] at hall
    cases hall
  · exact ⟨last, herror⟩

end Rig

end Chip8
