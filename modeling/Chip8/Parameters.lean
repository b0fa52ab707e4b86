/-!
# The parameters of the machine

Sizes, addresses and rates of the CHIP-8 architecture, and the font of the sixteen
hexadecimal digits.

* Memory has 4096 bytes. The font lies at its start and programs start at `0x200`.
* The screen has 64 by 32 pixels, the keypad 16 keys, the stack room for 16 calls.
* Instructions run at 500 per second and timers at 60, so a frame has 8 instructions.
-/

namespace Chip8

/-- Bytes of memory. -/
abbrev memorySize : Nat := 0x1000

/-- The address where programs are loaded and where execution begins. -/
abbrev programStart : Nat := 0x200

/-- Bytes that a program may take up. -/
abbrev programCapacity : Nat := memorySize - programStart

/-- Bytes of an instruction word. -/
abbrev instructionSize : Nat := 2

/-- General registers, `V0` to `VF`. -/
abbrev registerCount : Nat := 16

/-- The number of `VF`, the register that carries flags. -/
abbrev flagRegister : Nat := registerCount - 1

/-- The bits that the index register keeps. -/
abbrev indexMask : UInt16 := 0x0FFF

/-- Return addresses that the stack has room for. -/
abbrev stackDepth : Nat := 16

/-- Keys of the keypad, `0` to `F`. -/
abbrev keyCount : Nat := 16

/-- Pixels in a row of the screen. -/
abbrev screenWidth : Nat := 64

/-- Rows of the screen. -/
abbrev screenHeight : Nat := 32

/-- Pixels of the screen. -/
abbrev screenSize : Nat := screenWidth * screenHeight

/-- Pixels in a row of a sprite, one for each bit of a byte. -/
abbrev spriteWidth : Nat := 8

/-- Instructions per second. -/
abbrev clockRate : Nat := 500

/-- Timer ticks per second. -/
abbrev timerRate : Nat := 60

/-- Instructions per frame at the standard rates; a frame is one timer tick long. -/
abbrev cyclesPerFrame : Nat := clockRate / timerRate

/-- The address of the font. -/
abbrev fontStart : Nat := 0x000

/-- Bytes of a glyph, one for each of its rows. -/
abbrev glyphSize : Nat := 5

/-- The glyphs of the digits `0` to `F`, four pixels wide and five rows high. -/
def font : List UInt8 :=
  [0xF0, 0x90, 0x90, 0x90, 0xF0, -- 0
   0x20, 0x60, 0x20, 0x20, 0x70, -- 1
   0xF0, 0x10, 0xF0, 0x80, 0xF0, -- 2
   0xF0, 0x10, 0xF0, 0x10, 0xF0, -- 3
   0x90, 0x90, 0xF0, 0x10, 0x10, -- 4
   0xF0, 0x80, 0xF0, 0x10, 0xF0, -- 5
   0xF0, 0x80, 0xF0, 0x90, 0xF0, -- 6
   0xF0, 0x10, 0x20, 0x40, 0x40, -- 7
   0xF0, 0x90, 0xF0, 0x90, 0xF0, -- 8
   0xF0, 0x90, 0xF0, 0x10, 0xF0, -- 9
   0xF0, 0x90, 0xF0, 0x90, 0x90, -- A
   0xE0, 0x90, 0xE0, 0x90, 0xE0, -- B
   0xF0, 0x80, 0x80, 0x80, 0xF0, -- C
   0xE0, 0x90, 0x90, 0x90, 0xE0, -- D
   0xF0, 0x80, 0xF0, 0x80, 0xF0, -- E
   0xF0, 0x80, 0xF0, 0x80, 0x80] -- F

/-- The address of the glyph of a digit; only the low four bits of `digit` count. -/
def glyphAddress (digit : UInt8) : Nat :=
  fontStart + glyphSize * (digit &&& 0xF).toNat

end Chip8
