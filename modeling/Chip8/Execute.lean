/-
Chip8.Execute — the instruction set: what each operation does to a state,
the bounds that are checked first, fetching, the timers, and loading a
program.

* `Operation.permit` is the only place that refuses an instruction for the
  stack or for a memory range; `Operation.perform` cannot fail and follows
  an `Edge` for accesses outside.
* `execute` decodes, names the operation, checks and performs.
* `fetch` reads the word at the program counter, high byte first, and
  moves on by two; the program counter wraps at 16 bits.
-/
import Chip8.Alu
import Chip8.Edge
import Chip8.Instruction
import Chip8.Operation
import Chip8.Sprite
import Chip8.State

namespace Chip8

namespace State

/-! ## Control flow -/

/-- Pass over the next instruction if a condition holds. -/
def skipIf (s : State) (condition : Bool) : State :=
  if condition then { s with pc := s.pc + 2 } else s

/-- Whether the key that the low digit of a register names is held. -/
def keyOf (s : State) (k : Fin 16) : Bool :=
  s.keypad.get ⟨(s.register k).toNat % 16, by omega⟩

/-- Put the lowest held key into a register; with no key held, step back to the same
instruction. -/
def waitForKey (s : State) (k : Fin 16) : State :=
  match s.keypad.lowest? with
  | some key => s.setRegister k (UInt8.ofNat key.val)
  | none => { s with pc := s.pc - 2 }

/-! ## Registers -/

/-- Write the result of a function of VX and VY to VX, and after that its flag to VF if the
function sets it. -/
def applyAlu (s : State) (f : Alu) (x y : Fin 16) : State :=
  let outcome := f.apply (Int32.ofNat (s.register x).toNat) (Int32.ofNat (s.register y).toNat)
  let written := s.setRegister x (UInt8.ofInt (outcome.1 &&& 0xFF).toInt)
  if f.setsFlag then written.setRegister 15 (UInt8.ofInt outcome.2.toInt) else written

/-- Draw a random byte under a mask. -/
def draw (s : State) (x : Fin 16) (mask : UInt8) : State :=
  { s.setRegister x (s.rng.byte &&& mask) with rng := s.rng.next }

/-! ## Pictures -/

/-- Invert the pixels of the sprite at I; VF tells whether a lit pixel went dark. -/
def drawSprite (edge : Edge) (s : State) (x y n : Fin 16) : State :=
  let mask := Sprite.mask edge.sprite s.memory (Int32.ofNat s.index.toNat)
    (Int32.ofNat (s.register x).toNat) (Int32.ofNat (s.register y).toNat) (Int32.ofNat n.val)
  { s.setRegister 15 (if s.display.overlaps mask then 1 else 0) with
    display := s.display.invert mask }

/-! ## Memory blocks -/

/-- The address that goes with register `k` in a block of V0 to VX: I + k, or the first address
past memory for a register that takes no part. -/
def blockAddress (s : State) (x k : Fin 16) : Int :=
  if k ≤ x then (s.index.toNat + k.val : Nat) else (Memory.size : Int)

/-- Store V0 to VX from I on. -/
def storeRegisters (edge : Edge) (s : State) (x : Fin 16) : State :=
  { s with
    memory := (List.finRange 16).foldl
      (fun m k => writeAt m (edge.store m) (s.blockAddress x k) (s.register k)) s.memory }

/-- Load V0 to VX from I on. -/
def loadRegisters (edge : Edge) (s : State) (x : Fin 16) : State :=
  { s with
    registers := Vector.ofFn fun k =>
      let address := s.blockAddress x k
      let byte := readAt s.memory (edge.fill s.memory) address
      if address < Memory.size then byte else s.register k }

/-- The hundreds, tens and units of a byte. -/
def decimalDigits (b : UInt8) : List UInt8 :=
  [UInt8.ofNat (b.toNat / 100), UInt8.ofNat (b.toNat / 10 % 10), UInt8.ofNat (b.toNat % 10)]

/-- Store the decimal digits of a register at I, I + 1 and I + 2. -/
def storeDecimal (edge : Edge) (s : State) (x : Fin 16) : State :=
  { s with
    memory := (decimalDigits (s.register x)).zipIdx.foldl
      (fun m digit =>
        writeAt m (edge.digit m) (s.index.toNat + digit.2 : Nat) digit.1) s.memory }

end State

/-! ## Operations -/

/-- Refuse a range of at least one byte that ends beyond the last byte of memory. -/
def Access.permit (access : Access) (start length : Nat) : Except Fault Unit :=
  if 0 < length ∧ Memory.last < start + length - 1 then
    .error (.outOfRange access (start + length - 1))
  else .ok ()

namespace Operation

/-- The effect of an operation on a state whose program counter has already moved on. -/
def perform (edge : Edge) (operation : Operation) (i : Instruction) (s : State) : State :=
  match operation with
  | .clearScreen => { s with display := Screen.blank }
  | .ret => { s with stack := s.stack.pop edge.slot, pc := s.stack.top edge.address }
  | .systemCall => s
  | .jump => { s with pc := i.nnn }
  | .call => { s with stack := s.stack.push edge.slot s.pc, pc := i.nnn }
  | .skipEqImmediate => s.skipIf (s.register i.x == i.nn)
  | .skipNeImmediate => s.skipIf (s.register i.x != i.nn)
  | .skipEqRegister => s.skipIf (s.register i.x == s.register i.y)
  | .loadImmediate => s.setRegister i.x i.nn
  | .addImmediate => s.setRegister i.x (s.register i.x + i.nn)
  | .copy => s.applyAlu .set i.x i.y
  | .or => s.applyAlu .or i.x i.y
  | .and => s.applyAlu .and i.x i.y
  | .xor => s.applyAlu .xor i.x i.y
  | .add => s.applyAlu .add i.x i.y
  | .subtract => s.applyAlu .subtract i.x i.y
  | .shiftRight => s.applyAlu .shiftRight i.x i.y
  | .subtractReverse => s.applyAlu .subtractReverse i.x i.y
  | .shiftLeft => s.applyAlu .shiftLeft i.x i.y
  | .skipNeRegister => s.skipIf (s.register i.x != s.register i.y)
  | .loadIndex => { s with index := i.nnn }
  | .jumpOffset => { s with pc := i.nnn + (s.register 0).toUInt16 }
  | .random => s.draw i.x i.nn
  | .draw => s.drawSprite edge i.x i.y i.n
  | .skipKeyPressed => s.skipIf (s.keyOf i.x)
  | .skipKeyNotPressed => s.skipIf (!s.keyOf i.x)
  | .readDelayTimer => s.setRegister i.x s.delayTimer
  | .waitKey => s.waitForKey i.x
  | .setDelayTimer => { s with delayTimer := s.register i.x }
  | .setSoundTimer => { s with soundTimer := s.register i.x }
  | .addIndex => { s with index := s.index + (s.register i.x).toUInt16 }
  | .fontAddress =>
    { s with
      index := UInt16.ofNat
        (Memory.fontStart + (s.register i.x).toNat % 16 * Memory.glyphSize) }
  | .storeBcd => s.storeDecimal edge i.x
  | .storeRegisters => s.storeRegisters edge i.x
  | .loadRegisters => s.loadRegisters edge i.x

/-- Refuse an instruction that would leave the stack or memory. -/
def permit (operation : Operation) (i : Instruction) (s : State) : Except Fault Unit :=
  match operation with
  | .call =>
    if CallStack.size ≤ s.stack.pointer.val then .error (.stackOverflow i.nnn.toNat) else .ok ()
  | .ret => if s.stack.pointer.val = 0 then .error .stackUnderflow else .ok ()
  | .draw => Access.permit .read s.index.toNat i.n.val
  | .storeBcd => Access.permit .write s.index.toNat 3
  | .storeRegisters => Access.permit .write s.index.toNat (i.x.val + 1)
  | .loadRegisters => Access.permit .read s.index.toNat (i.x.val + 1)
  | _ => .ok ()

end Operation

/-! ## Steps of a machine -/

namespace State

/-- Carry out the instruction in the sixteen low bits of a word, with a given rule for accesses
outside memory and stack. -/
def executeWith (edge : Edge) (s : State) (word : Int) : Except Fault State := do
  let i := Instruction.decode word
  let operation ← Operation.ofWord i.raw.toNat
  operation.permit i s
  return operation.perform edge i s

/-- Carry out the instruction in the sixteen low bits of a word. -/
def execute (s : State) (word : Int) : Except Fault State := s.executeWith Edge.standard word

/-- The word at an address and the one after it. -/
def wordAt (s : State) (a : Nat) : UInt16 :=
  (s.memory.getD a 0).toUInt16 <<< 8 ||| (s.memory.getD (a + 1) 0).toUInt16

/-- Read the word at the program counter and move the counter past it. -/
def fetch (s : State) : Except Fault (State × UInt16) := do
  Access.permit .fetch s.pc.toNat 2
  return ({ s with pc := s.pc + 2 }, s.wordAt s.pc.toNat)

/-- Fetch an instruction and carry it out. -/
def step (s : State) : Except Fault (State × UInt16) := do
  let (fetched, word) ← s.fetch
  let after ← fetched.execute word.toNat
  return (after, word)

/-- Lower a timer by one unless it has run out. -/
def countDown (timer : UInt8) : UInt8 := if 0 < timer then timer - 1 else timer

/-- Lower both timers. -/
def tick (s : State) : State :=
  { s with delayTimer := countDown s.delayTimer, soundTimer := countDown s.soundTimer }

/-- Copy a program to its place in memory and point the program counter at it. -/
def loadProgram (s : State) (program : List UInt8) : Except Fault State :=
  if Memory.programLimit < program.length then .error (.programTooLarge program.length)
  else .ok { s with memory := s.memory.load Memory.programStart program, pc := 0x200 }

end State

end Chip8
