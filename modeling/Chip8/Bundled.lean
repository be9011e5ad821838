/-
Chip8.Bundled — the program that runs when none is named.
-/
namespace Chip8

/-- The bytes of the bundled program. -/
def bundledProgram : List UInt8 := [
  0x00, 0xEF, 0xBF, 0xBD, 0x60, 0x00, 0x61, 0x01, 0x62, 0x01, 0xEF, 0xBF, 0xBD, 0x29,
  0xEF, 0xBF, 0xBD, 0x25, 0x70, 0x01, 0x71, 0x08, 0x41, 0x41, 0x22, 0x30, 0x30, 0x10,
  0x12, 0x08, 0x6A, 0x1C, 0x6B, 0x14, 0xEF, 0xBF, 0xBD, 0x0A, 0xEF, 0xBF, 0xBD, 0x29,
  0xDA, 0xB5, 0x6C, 0x1E, 0xEF, 0xBF, 0xBD, 0x15, 0xEF, 0xBF, 0xBD, 0x07, 0x3C, 0x00,
  0x12, 0x26, 0xDA, 0xB5, 0x12, 0x1C, 0x61, 0x01, 0x72, 0x08, 0x00, 0xEF, 0xBF, 0xBD]

end Chip8
