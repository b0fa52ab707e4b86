import Chip8.Instruction.Basic
import Chip8.Numeral
import Chip8.Word

/-!
# Decoding

Which instruction a word stands for. Words that stand for none are refused.
-/

namespace Chip8

/-- A word that is no instruction. -/
structure UnknownOpcode where
  word : Word
deriving DecidableEq

/-- The text of the refusal. -/
def UnknownOpcode.message (e : UnknownOpcode) : String :=
  "An unsupported opcode was used " ++ Numeral.hex 4 e.word.toNat ++ "."

/-- The operation of an arithmetic word, by its lowest nibble. -/
def Alu.ofNibble? : Nat → Option Alu
  | 0x0 => some assign
  | 0x1 => some or
  | 0x2 => some and
  | 0x3 => some xor
  | 0x4 => some add
  | 0x5 => some sub
  | 0x6 => some shiftRight
  | 0x7 => some subReverse
  | 0xE => some shiftLeft
  | _ => none

namespace Instruction

/-- The instruction of a word, if there is one. -/
def ofWord? (w : Word) : Option Instruction :=
  match w.family with
  | 0x0 =>
    match w.nnn with
    | 0x0E0 => some clear
    | 0x0EE => some ret
    | _ => none
  | 0x1 => some (jump w.nnn)
  | 0x2 => some (call w.nnn)
  | 0x3 => some (skipIfConst w.x w.kk)
  | 0x4 => some (skipUnlessConst w.x w.kk)
  | 0x5 => if w.n = 0 then some (skipIfEqual w.x w.y) else none
  | 0x6 => some (load w.x w.kk)
  | 0x7 => some (add w.x w.kk)
  | 0x8 => (Alu.ofNibble? w.n).map fun op => alu op w.x w.y
  | 0x9 => if w.n = 0 then some (skipUnlessEqual w.x w.y) else none
  | 0xA => some (loadIndex w.nnn)
  | 0xB => some (jumpOffset w.nnn)
  | 0xC => some (random w.x w.kk)
  | 0xD => some (draw w.x w.y w.n)
  | 0xE =>
    match w.kk.toNat with
    | 0x9E => some (skipIfPressed w.x)
    | 0xA1 => some (skipUnlessPressed w.x)
    | _ => none
  | 0xF =>
    match w.kk.toNat with
    | 0x07 => some (readDelay w.x)
    | 0x0A => some (awaitKey w.x)
    | 0x15 => some (setDelay w.x)
    | 0x18 => some (setSound w.x)
    | 0x1E => some (addIndex w.x)
    | 0x29 => some (loadGlyph w.x)
    | 0x33 => some (storeDecimal w.x)
    | 0x55 => some (storeRegisters w.x)
    | 0x65 => some (fetchRegisters w.x)
    | _ => none
  | _ => none

/-- The instruction of a word. -/
def decode (w : Word) : Except UnknownOpcode Instruction :=
  match ofWord? w with
  | some i => .ok i
  | none => .error ⟨w⟩

end Instruction

end Chip8
