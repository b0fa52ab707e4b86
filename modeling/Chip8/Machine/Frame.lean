import Chip8.Machine.Cycle

/-!
# Frames

The host runs the machine frame by frame, at the rate of the timers. A frame reads the host's
keys, executes a number of instructions, counts the timers down once, shows the screen if it was
drawn on, and stops the tone if the sound timer ran out. A frame ends at the first instruction that
fails, and gives up its remaining cycles once an instruction waits for a key.

* `run_cycles_zero`, `run_cycles_succ`: the cycles of a frame, one after the other.
-/

namespace Chip8

/-- What a frame asks of the devices of the host. -/
inductive HostCall where
  /-- For the state of the keys. -/
  | readKeys
  /-- To show this screen. -/
  | present (screen : Screen)
  /-- To stop the tone. -/
  | stopTone
deriving DecidableEq

/-- What a frame leaves. -/
structure Frame where
  result : Except Fault Unit
  machine : Machine
  log : List Record
  calls : List HostCall

namespace Machine

/-- Goes on for up to `n` cycles from `m`; `redraw` tells whether the screen was drawn on so far,
and `log` holds the notes so far. -/
def cyclesFrom (redraw : Bool) (log : Array Record) : Nat → Machine → Outcome Bool
  | 0, m => ⟨.ok redraw, m, log.toList⟩
  | n + 1, m =>
    let o := execute.run m
    let log := log ++ o.log
    match o.result with
    | .error e => ⟨.error e, o.machine, log.toList⟩
    | .ok .wait => ⟨.ok redraw, o.machine, log.toList⟩
    | .ok .redraw => cyclesFrom true log n o.machine
    | .ok .nothing => cyclesFrom redraw log n o.machine

/-- Up to `n` cycles, ending at the first one that fails or waits for a key; whether the screen
was drawn on. -/
def cycles (n : Nat) : Routine Bool :=
  cyclesFrom false #[] n

/-- A frame of up to `n` cycles, with the keys of the host. -/
def frame (m : Machine) (n : Nat) (keys : Keypad) : Frame :=
  let ran := (cycles n).run { m with keypad := keys }
  match ran.result with
  | .error e => ⟨.error e, ran.machine, ran.log, [.readKeys]⟩
  | .ok redraw =>
    let ticked := tick.run ran.machine
    let taken := takeToneEnded.run ticked.machine
    let screen := if redraw then [.present taken.machine.screen] else []
    let tone := if ticked.machine.toneEnded then [.stopTone] else []
    ⟨.ok (), taken.machine, ran.log ++ ticked.log, .readKeys :: screen ++ tone⟩

/-- What came before a run of cycles is put in front of what the run leaves. -/
theorem cyclesFrom_eq (redraw : Bool) (log : Array Record) (n : Nat) (m : Machine) :
    cyclesFrom redraw log n m =
      ⟨((cycles n).run m).result.map (redraw || ·), ((cycles n).run m).machine,
        log.toList ++ ((cycles n).run m).log⟩ := by
  simp only [cycles, Routine.run]
  induction n generalizing m redraw log with
  | zero => simp [cyclesFrom, Except.map]
  | succ n ih =>
    simp only [cyclesFrom]
    rcases execute.run m with ⟨e | _ | _ | _, m', l⟩
    · simp [Except.map]
    · rw [ih redraw (log ++ l), ih false (#[] ++ l)]
      cases (cyclesFrom false #[] n m').result <;> simp [Except.map]
    · simp [Except.map]
    · rw [ih true (log ++ l), ih true (#[] ++ l)]
      cases (cyclesFrom false #[] n m').result <;> simp [Except.map]

@[simp]
theorem run_cycles_zero (m : Machine) : (cycles 0).run m = ⟨.ok false, m, []⟩ :=
  rfl

/-- **The cycles of a frame**, one after the other. -/
theorem run_cycles_succ (n : Nat) (m : Machine) :
    (cycles (n + 1)).run m = (execute.run m).andThen fun signal m' =>
      match signal with
      | .wait => ⟨.ok false, m', []⟩
      | .redraw => ((cycles n).run m').andThen fun _ m'' => ⟨.ok true, m'', []⟩
      | .nothing => (cycles n).run m' := by
  show cyclesFrom false #[] (n + 1) m = _
  simp only [cyclesFrom, cyclesFrom_eq]
  rcases execute.run m with ⟨e | _ | _ | _, m', l⟩
  · simp
  · rw [Outcome.andThen_ok]
    rcases (cycles n).run m' with ⟨e | r, m'', l'⟩ <;> simp [Except.map]
  · simp
  · rw [Outcome.andThen_ok]
    rcases (cycles n).run m' with ⟨e | r, m'', l'⟩ <;> simp [Except.map]

end Machine

end Chip8
