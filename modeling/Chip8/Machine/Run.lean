import Chip8.Machine.Cycle

/-!
# Runs of steps

Many steps in a row, up to the first one that fails.
-/

namespace Chip8

/-- What a run of steps leaves. -/
structure Run where
  /-- The program counter after each step that succeeded. -/
  trace : List Nat
  /-- How the last step ended, if there was one. -/
  last : Option (Except Fault Signal)
  machine : Machine
  log : List Record

namespace Machine

/-- Goes on for up to `n` steps from `m`, after the trace, the last result and the notes so far. -/
def runFrom (trace : Array Nat) (last : Option (Except Fault Signal)) (log : Array Record) :
    Nat → Machine → Run
  | 0, m => ⟨trace.toList, last, m, log.toList⟩
  | n + 1, m =>
    let o := step.run m
    let log := log ++ o.log
    match o.result with
    | .error e => ⟨trace.toList, some (.error e), o.machine, log.toList⟩
    | .ok signal => runFrom (trace.push o.machine.pc) (some (.ok signal)) log n o.machine

/-- Up to `n` steps, ending at the first one that fails. -/
def runSteps (m : Machine) (n : Nat) : Run :=
  runFrom #[] none #[] n m

end Machine

end Chip8
