import Chip8.Parameters

/-!
# Steps of the program counter

How an instruction moves the program counter.
-/

namespace Chip8

/-- Where the program counter goes. -/
inductive Step where
  /-- It stays, so the same instruction comes again. -/
  | stay
  /-- It goes to the next instruction. -/
  | next
  /-- It passes over the next instruction. -/
  | skip
  /-- It goes to a given address. -/
  | jump (address : Nat)
deriving DecidableEq

namespace Step

/-- The program counter after a step. -/
def advance : Step → Nat → Nat
  | stay, pc => pc
  | next, pc => pc + instructionSize
  | skip, pc => pc + 2 * instructionSize
  | jump address, _ => address

/-- Passes over the next instruction if a condition holds. -/
def skipIf (condition : Bool) : Step :=
  if condition then skip else next

theorem advance_skipIf (condition : Bool) (pc : Nat) :
    (skipIf condition).advance pc =
      if condition then pc + 2 * instructionSize else pc + instructionSize := by
  cases condition <;> rfl

end Step

end Chip8
