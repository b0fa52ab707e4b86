import Chip8.Dump
import Chip8.Machine.Basic

/-!
# Listings

The state of the machine as text: the program counter, the last word and the index register, the
timers, the general registers, the open calls with the oldest first, and the dump of memory.
-/

namespace Chip8

namespace Machine

/-- Registers in a line of a listing. -/
abbrev registersPerLine : Nat := 8

/-- The line of the program counter. -/
def counterLine (m : Machine) : String :=
  "program counter: " ++ Numeral.hex 4 m.pc ++ " opcode: " ++ Numeral.hex 4 m.opcode.toNat ++
    " index: " ++ Numeral.hex 4 m.registers.index.toNat

/-- The line of the timers. -/
def timerLine (m : Machine) : String :=
  "delay timer: " ++ Numeral.decimal m.timers.delay.toNat ++ " sound timer: " ++
    Numeral.decimal m.timers.sound.toNat

/-- A register with its name. -/
def registerText (m : Machine) (x : Nat) : String :=
  "V" ++ Numeral.hexDigits 1 x ++ ": " ++ Numeral.hex 2 (m.registers.valueAt x).toNat

/-- A line of registers from `x` on. -/
def registerLine (m : Machine) (x : Nat) : String :=
  " ".intercalate ((List.range registersPerLine).map fun i => m.registerText (x + i))

/-- The line of the open calls. -/
def stackLine (m : Machine) : String :=
  "stack: [" ++ ", ".intercalate (m.stack.toList.map fun a => Numeral.hex 4 a.toNat) ++ "]"

/-- All lines of the listing. -/
def listing (m : Machine) : List String :=
  [m.counterLine, m.timerLine, m.registerLine 0, m.registerLine registersPerLine, m.stackLine] ++
    m.memory.dump.map Dump.Line.text

/-- The listing as one text; every line ends with a line break. -/
def text (m : Machine) : String :=
  String.join (m.listing.map fun line => line ++ "\n")

end Machine

end Chip8
