import Chip8.Keypad
import Chip8.Machine.Fault
import Chip8.Timers

/-!
# Log records

What the machine notes down while it works. Every record has a level and a line of text.
-/

namespace Chip8

/-- A note on something that happened. -/
inductive Record where
  /-- The word at `pc` was fetched. -/
  | fetched (pc : Nat) (word : Word)
  /-- The instruction at `pc` failed. -/
  | failed (pc : Nat) (fault : Fault)
  /-- A program of `count` bytes was loaded. -/
  | loaded (count : Nat)
  /-- The call at `pc` went to `target`. -/
  | called (target pc : Nat)
  /-- The call at `pc` has returned. -/
  | returned (pc : Nat)
  /-- The sound timer ran out. -/
  | toneEnded
  /-- An instruction that waits for a key got this one. -/
  | keyTaken (key : Nat)
  /-- A key that does not exist was pressed or released. -/
  | unknownKey (key : Nat)
deriving DecidableEq

namespace Record

/-- How much a record matters. -/
inductive Level where
  | trace
  | debug
  | warn
deriving DecidableEq

/-- The name of a level. -/
def Level.name : Level → String
  | trace => "TRACE"
  | debug => "DEBUG"
  | warn => "WARN"

/-- The level of a record. -/
def level : Record → Level
  | fetched _ _ => .trace
  | failed _ _ => .warn
  | loaded _ => .debug
  | called _ _ => .debug
  | returned _ => .debug
  | toneEnded => .debug
  | keyTaken _ => .debug
  | unknownKey _ => .warn

/-- The text of a record. -/
def text : Record → String
  | fetched pc word => Numeral.hex 4 pc ++ ": " ++ Numeral.hex 4 word.toNat
  | failed pc fault => "instruction at " ++ Numeral.hex 4 pc ++ " failed: " ++ fault.message
  | loaded count => "loaded program of " ++ Numeral.decimal count ++ " bytes"
  | called target pc => "call " ++ Numeral.hex 4 target ++ " from " ++ Numeral.hex 4 pc
  | returned pc => "return to " ++ Numeral.hex 4 pc
  | toneEnded => "sound timer elapsed"
  | keyTaken key => "key " ++ Numeral.hex 1 key ++ " pressed while waiting"
  | unknownKey key => "ignoring state change of unknown key " ++ Numeral.hex 1 key

/-- The level and the text of a record. -/
def line (r : Record) : String :=
  r.level.name ++ " " ++ r.text

end Record

/-- What a tick of these timers notes down. -/
def Timers.notes (t : Timers) : List Record :=
  if t.endsTone then [.toneEnded] else []

/-- What pressing or releasing a key notes down. -/
def Keypad.notes (key : Nat) : List Record :=
  if key < keyCount then [] else [.unknownKey key]

end Chip8
