import Chip8.Alu

/-!
# Instructions

The thirty-four instructions of the machine, with their operands. `VX` and `VY` are general
registers, `I` is the index register.

The operands are not bounded here: an instruction may name a register that does not exist or an
address beyond memory. Those that an instruction word can hold are described beside `encode`.
-/

namespace Chip8

/-- An instruction with its operands. -/
inductive Instruction where
  /-- Turns all pixels off (`00E0`). -/
  | clear
  /-- Goes back to behind the newest open call (`00EE`). -/
  | ret
  /-- Goes to an address (`1NNN`). -/
  | jump (nnn : Nat)
  /-- Goes to an address, to come back later (`2NNN`). -/
  | call (nnn : Nat)
  /-- Skips if `VX` is the constant (`3XKK`). -/
  | skipIfConst (x : Nat) (kk : UInt8)
  /-- Skips if `VX` is not the constant (`4XKK`). -/
  | skipUnlessConst (x : Nat) (kk : UInt8)
  /-- Skips if `VX` is `VY` (`5XY0`). -/
  | skipIfEqual (x y : Nat)
  /-- Sets `VX` to the constant (`6XKK`). -/
  | load (x : Nat) (kk : UInt8)
  /-- Adds the constant to `VX`, without a carry (`7XKK`). -/
  | add (x : Nat) (kk : UInt8)
  /-- Operates on `VX` and `VY` (`8XY0` to `8XY7` and `8XYE`). -/
  | alu (op : Alu) (x y : Nat)
  /-- Skips if `VX` is not `VY` (`9XY0`). -/
  | skipUnlessEqual (x y : Nat)
  /-- Sets `I` to an address (`ANNN`). -/
  | loadIndex (nnn : Nat)
  /-- Goes to an address plus `V0` (`BNNN`). -/
  | jumpOffset (nnn : Nat)
  /-- Sets `VX` to a random byte under a mask (`CXKK`). -/
  | random (x : Nat) (kk : UInt8)
  /-- Draws the `n` rows at `I` at column `VX` and row `VY` (`DXYN`). -/
  | draw (x y n : Nat)
  /-- Skips if the key `VX` is pressed (`EX9E`). -/
  | skipIfPressed (x : Nat)
  /-- Skips if the key `VX` is not pressed (`EXA1`). -/
  | skipUnlessPressed (x : Nat)
  /-- Sets `VX` to the delay timer (`FX07`). -/
  | readDelay (x : Nat)
  /-- Waits for a key and sets `VX` to it (`FX0A`). -/
  | awaitKey (x : Nat)
  /-- Sets the delay timer to `VX` (`FX15`). -/
  | setDelay (x : Nat)
  /-- Sets the sound timer to `VX` (`FX18`). -/
  | setSound (x : Nat)
  /-- Adds `VX` to `I` (`FX1E`). -/
  | addIndex (x : Nat)
  /-- Sets `I` to the glyph of the digit `VX` (`FX29`). -/
  | loadGlyph (x : Nat)
  /-- Stores the three decimal digits of `VX` at `I` (`FX33`). -/
  | storeDecimal (x : Nat)
  /-- Stores `V0` to `VX` at `I` (`FX55`). -/
  | storeRegisters (x : Nat)
  /-- Fetches `V0` to `VX` from `I` (`FX65`). -/
  | fetchRegisters (x : Nat)
deriving DecidableEq

end Chip8
