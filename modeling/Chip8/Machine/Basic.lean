import Chip8.Keypad
import Chip8.Memory
import Chip8.Random
import Chip8.Registers
import Chip8.Screen
import Chip8.Stack
import Chip8.Timers

/-!
# The machine

All that the machine is at one moment.
-/

namespace Chip8

/-- The state of the machine. -/
structure Machine where
  memory : Memory
  registers : Registers
  /-- The program counter, the address of the next instruction. -/
  pc : Nat
  stack : Stack
  timers : Timers
  screen : Screen
  keypad : Keypad
  random : RandomSource
  /-- The word that was fetched last. -/
  opcode : Word
  /-- Whether the sound timer ran out since the host last asked. -/
  toneEnded : Bool

namespace Machine

/-- The machine at power-on, without a program. -/
def boot (random : RandomSource) : Machine where
  memory := .blank
  registers := .blank
  pc := programStart
  stack := .blank
  timers := .blank
  screen := .blank
  keypad := .blank
  random := random
  opcode := 0
  toneEnded := false

end Machine

end Chip8
