import Chip8.Instruction.Decode
import Chip8.Memory
import Chip8.Stack

/-!
# Faults

Why the machine refuses an operation. A fault names its cause, and its text wraps the text of the
cause.
-/

namespace Chip8

/-- Why the machine refuses an operation. -/
inductive Fault where
  /-- The word at the program counter is no instruction. -/
  | opcode (cause : UnknownOpcode)
  /-- Bytes beyond memory, or a program that does not fit. -/
  | memory (cause : Memory.Fault)
  /-- A call too many, or a return without a call. -/
  | stack (cause : Stack.Fault)
  /-- An operand names a register that does not exist; no instruction word can do so. -/
  | noRegister (x : Nat)
deriving DecidableEq

/-- The text of a fault. -/
def Fault.message : Fault → String
  | opcode cause => "Invalid opcode state '" ++ cause.message ++ "'."
  | memory cause => "Invalid memory access '" ++ cause.message ++ "'."
  | stack cause => "Invalid stack state '" ++ cause.message ++ "'."
  | noRegister x => "There is no register " ++ Numeral.decimal x ++ "."

end Chip8
