import Chip8.Machine.Perform

/-!
# The machine at work

A cycle fetches the word at the program counter, decodes it and performs the instruction. Timers
are counted down on their own, or once after each cycle of `step`. A failed instruction leaves
the program counter where it is.
-/

namespace Chip8

namespace Machine

open Routine

/-- Copies a program into memory. -/
def load (program : List UInt8) : Routine Unit := do
  let m ← current
  let memory ← ofExcept .memory (m.memory.load program)
  update fun m => { m with memory }
  note (.loaded program.length)

/-- Presses or releases a key. -/
def setKey (key : Nat) (pressed : Bool) : Routine Unit := do
  (Keypad.notes key).forM note
  update fun m => { m with keypad := m.keypad.set key pressed }

/-- Presses a key. -/
def press (key : Nat) : Routine Unit :=
  setKey key true

/-- Releases a key. -/
def release (key : Nat) : Routine Unit :=
  setKey key false

/-- Replaces the state of all keys. -/
def setKeys (keypad : Keypad) : Routine Unit :=
  update fun m => { m with keypad }

/-- Counts the timers down, and tells whether this ended a tone. The machine remembers the end of a
tone until the host asks for it. -/
def tick : Routine Bool := do
  let m ← current
  let ended := m.timers.endsTone
  m.timers.notes.forM note
  update fun m => { m with timers := m.timers.tick, toneEnded := m.toneEnded || ended }
  pure ended

/-- Whether a tone ended since the host last asked. -/
def takeToneEnded : Routine Bool := do
  let m ← current
  update fun m => { m with toneEnded := false }
  pure m.toneEnded

/-- Fetches the word at the program counter. -/
def fetch : Routine Word := do
  let m ← current
  let word ← ofExcept .memory (m.memory.readWord m.pc)
  update fun m => { m with opcode := word }
  note (.fetched m.pc word)
  pure word

/-- Performs the instruction of a word. -/
def performWord (word : Word) : Routine Signal := do
  let instruction ← ofExcept .opcode (Instruction.decode word)
  instruction.perform

/-- Notes down a failure of the instruction at `pc`. -/
def noteFailure {α : Type} (pc : Nat) (a : Routine α) : Routine α := fun m =>
  let o := a.run m
  match o.result with
  | .ok _ => o
  | .error e => { o with log := o.log ++ [.failed pc e] }

/-- One cycle: fetches, decodes and performs one instruction. -/
def execute : Routine Signal := do
  let m ← current
  noteFailure m.pc do
    let word ← fetch
    performWord word

/-- One cycle, and then one tick of the timers unless the instruction failed. -/
def step : Routine Signal := do
  let signal ← execute
  let _ ← tick
  pure signal

end Machine

end Chip8
