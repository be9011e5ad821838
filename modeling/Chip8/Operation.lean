/-
Chip8.Operation — the thirty-five operations and the table that names the
operation of a word.

A `Pattern` fits a word whose bits under a mask have a given value.
`firstMatch` answers with the first pattern of a table that fits, so the
order of a table matters exactly where two of its patterns fit one word:
`opcodeTable` lists 00E0 and 00EE before 0NNN for that reason. Words may
have any size and sign; only the bits under a mask are looked at.
-/
import Chip8.Fault

namespace Chip8

/-- What an instruction does. -/
inductive Operation where
  | clearScreen
  | ret
  | systemCall
  | jump
  | call
  | skipEqImmediate
  | skipNeImmediate
  | skipEqRegister
  | loadImmediate
  | addImmediate
  | copy
  | or
  | and
  | xor
  | add
  | subtract
  | shiftRight
  | subtractReverse
  | shiftLeft
  | skipNeRegister
  | loadIndex
  | jumpOffset
  | random
  | draw
  | skipKeyPressed
  | skipKeyNotPressed
  | readDelayTimer
  | waitKey
  | setDelayTimer
  | setSoundTimer
  | addIndex
  | fontAddress
  | storeBcd
  | storeRegisters
  | loadRegisters
deriving DecidableEq, Repr

namespace Operation

/-- All operations. -/
def all : List Operation :=
  [.clearScreen, .ret, .systemCall, .jump, .call, .skipEqImmediate, .skipNeImmediate,
   .skipEqRegister, .loadImmediate, .addImmediate, .copy, .or, .and, .xor, .add, .subtract,
   .shiftRight, .subtractReverse, .shiftLeft, .skipNeRegister, .loadIndex, .jumpOffset, .random,
   .draw, .skipKeyPressed, .skipKeyNotPressed, .readDelayTimer, .waitKey, .setDelayTimer,
   .setSoundTimer, .addIndex, .fontAddress, .storeBcd, .storeRegisters, .loadRegisters]

/-- The name of an operation. -/
def name : Operation → String
  | .clearScreen => "CLEAR_SCREEN"
  | .ret => "RETURN"
  | .systemCall => "SYSTEM_CALL"
  | .jump => "JUMP"
  | .call => "CALL"
  | .skipEqImmediate => "SKIP_EQ_IMMEDIATE"
  | .skipNeImmediate => "SKIP_NE_IMMEDIATE"
  | .skipEqRegister => "SKIP_EQ_REGISTER"
  | .loadImmediate => "LOAD_IMMEDIATE"
  | .addImmediate => "ADD_IMMEDIATE"
  | .copy => "COPY"
  | .or => "OR"
  | .and => "AND"
  | .xor => "XOR"
  | .add => "ADD"
  | .subtract => "SUBTRACT"
  | .shiftRight => "SHIFT_RIGHT"
  | .subtractReverse => "SUBTRACT_REVERSE"
  | .shiftLeft => "SHIFT_LEFT"
  | .skipNeRegister => "SKIP_NE_REGISTER"
  | .loadIndex => "LOAD_INDEX"
  | .jumpOffset => "JUMP_OFFSET"
  | .random => "RANDOM"
  | .draw => "DRAW"
  | .skipKeyPressed => "SKIP_KEY_PRESSED"
  | .skipKeyNotPressed => "SKIP_KEY_NOT_PRESSED"
  | .readDelayTimer => "READ_DELAY_TIMER"
  | .waitKey => "WAIT_KEY"
  | .setDelayTimer => "SET_DELAY_TIMER"
  | .setSoundTimer => "SET_SOUND_TIMER"
  | .addIndex => "ADD_INDEX"
  | .fontAddress => "FONT_ADDRESS"
  | .storeBcd => "STORE_BCD"
  | .storeRegisters => "STORE_REGISTERS"
  | .loadRegisters => "LOAD_REGISTERS"

/-- The shape of an operation's words: fixed digits, and letters for its fields. -/
def code : Operation → String
  | .clearScreen => "00E0"
  | .ret => "00EE"
  | .systemCall => "0NNN"
  | .jump => "1NNN"
  | .call => "2NNN"
  | .skipEqImmediate => "3XNN"
  | .skipNeImmediate => "4XNN"
  | .skipEqRegister => "5XY0"
  | .loadImmediate => "6XNN"
  | .addImmediate => "7XNN"
  | .copy => "8XY0"
  | .or => "8XY1"
  | .and => "8XY2"
  | .xor => "8XY3"
  | .add => "8XY4"
  | .subtract => "8XY5"
  | .shiftRight => "8XY6"
  | .subtractReverse => "8XY7"
  | .shiftLeft => "8XYE"
  | .skipNeRegister => "9XY0"
  | .loadIndex => "ANNN"
  | .jumpOffset => "BNNN"
  | .random => "CXNN"
  | .draw => "DXYN"
  | .skipKeyPressed => "EX9E"
  | .skipKeyNotPressed => "EXA1"
  | .readDelayTimer => "FX07"
  | .waitKey => "FX0A"
  | .setDelayTimer => "FX15"
  | .setSoundTimer => "FX18"
  | .addIndex => "FX1E"
  | .fontAddress => "FX29"
  | .storeBcd => "FX33"
  | .storeRegisters => "FX55"
  | .loadRegisters => "FX65"

end Operation

/-! ## Patterns -/

/-- The bits of an integer in two's complement, of unlimited width, that lie under a mask. -/
def maskBits : Int → Nat → Nat
  | .ofNat n, mask => n &&& mask
  | .negSucc n, mask => mask ^^^ (n &&& mask)

/-- The words whose bits under `mask` are `value`, and their operation. -/
structure Pattern where
  mask : Nat
  value : Nat
  operation : Operation
deriving DecidableEq, Repr

/-- Whether a word has the bits of a pattern. -/
def Pattern.fits (p : Pattern) (word : Int) : Bool := maskBits word p.mask == p.value

/-- The operation of the first pattern that fits a word. -/
def firstMatch (table : List Pattern) (word : Int) : Option Operation :=
  (table.find? (·.fits word)).map (·.operation)

/-- The patterns of the instruction set, in the order in which they are tried. -/
def opcodeTable : List Pattern :=
  [⟨0xFFFF, 0x00E0, .clearScreen⟩,
   ⟨0xFFFF, 0x00EE, .ret⟩,
   ⟨0xF000, 0x0000, .systemCall⟩,
   ⟨0xF000, 0x1000, .jump⟩,
   ⟨0xF000, 0x2000, .call⟩,
   ⟨0xF000, 0x3000, .skipEqImmediate⟩,
   ⟨0xF000, 0x4000, .skipNeImmediate⟩,
   ⟨0xF00F, 0x5000, .skipEqRegister⟩,
   ⟨0xF000, 0x6000, .loadImmediate⟩,
   ⟨0xF000, 0x7000, .addImmediate⟩,
   ⟨0xF00F, 0x8000, .copy⟩,
   ⟨0xF00F, 0x8001, .or⟩,
   ⟨0xF00F, 0x8002, .and⟩,
   ⟨0xF00F, 0x8003, .xor⟩,
   ⟨0xF00F, 0x8004, .add⟩,
   ⟨0xF00F, 0x8005, .subtract⟩,
   ⟨0xF00F, 0x8006, .shiftRight⟩,
   ⟨0xF00F, 0x8007, .subtractReverse⟩,
   ⟨0xF00F, 0x800E, .shiftLeft⟩,
   ⟨0xF00F, 0x9000, .skipNeRegister⟩,
   ⟨0xF000, 0xA000, .loadIndex⟩,
   ⟨0xF000, 0xB000, .jumpOffset⟩,
   ⟨0xF000, 0xC000, .random⟩,
   ⟨0xF000, 0xD000, .draw⟩,
   ⟨0xF0FF, 0xE09E, .skipKeyPressed⟩,
   ⟨0xF0FF, 0xE0A1, .skipKeyNotPressed⟩,
   ⟨0xF0FF, 0xF007, .readDelayTimer⟩,
   ⟨0xF0FF, 0xF00A, .waitKey⟩,
   ⟨0xF0FF, 0xF015, .setDelayTimer⟩,
   ⟨0xF0FF, 0xF018, .setSoundTimer⟩,
   ⟨0xF0FF, 0xF01E, .addIndex⟩,
   ⟨0xF0FF, 0xF029, .fontAddress⟩,
   ⟨0xF0FF, 0xF033, .storeBcd⟩,
   ⟨0xF0FF, 0xF055, .storeRegisters⟩,
   ⟨0xF0FF, 0xF065, .loadRegisters⟩]

/-- The operation of a word; a word without one is reported as it was given. -/
def Operation.ofWord (word : Int) : Except Fault Operation :=
  match firstMatch opcodeTable word with
  | some operation => .ok operation
  | none => .error (.unknownInstruction word)

end Chip8
