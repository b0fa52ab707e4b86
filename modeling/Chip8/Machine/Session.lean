import Chip8.Machine.Frame

/-!
# Sessions

All that a host can ask of the machine, as data, and what it gets back. A session is a list of
requests, served one after the other; a request that fails does not end it.

* `after_append`: a session in two parts.
-/

namespace Chip8

/-- What a host can ask of the machine. -/
inductive Request where
  /-- To take over a program. -/
  | load (program : List UInt8)
  /-- To execute one instruction. -/
  | execute
  /-- To execute one instruction and count the timers down. -/
  | step
  /-- To count the timers down. -/
  | tick
  /-- To tell whether a tone ended since it was last asked. -/
  | takeTone
  /-- To take a key as pressed. -/
  | press (key : Nat)
  /-- To take a key as released. -/
  | release (key : Nat)
  /-- To take over the state of all keys. -/
  | setKeys (keypad : Keypad)
  /-- To run a frame of up to `cycles` instructions. -/
  | frame (cycles : Nat) (keys : Keypad)

/-- What a request that succeeds brings back. -/
inductive Answer where
  | done
  | signal (signal : Signal)
  | flag (flag : Bool)
deriving DecidableEq

/-- What a request leaves. -/
structure Reply where
  result : Except Fault Answer
  machine : Machine
  log : List Record
  /-- The calls to the devices of the host, in order. -/
  calls : List HostCall

/-- The reply of a routine that calls no device. -/
def Reply.ofOutcome {α : Type} (answer : α → Answer) (o : Outcome α) : Reply :=
  ⟨o.result.map answer, o.machine, o.log, []⟩

/-- The reply of a frame. -/
def Reply.ofFrame (f : Frame) : Reply :=
  ⟨f.result.map fun _ => .done, f.machine, f.log, f.calls⟩

namespace Machine

/-- Serves a request. -/
def serve (m : Machine) : Request → Reply
  | .load program => .ofOutcome (fun _ => .done) ((load program).run m)
  | .execute => .ofOutcome .signal (execute.run m)
  | .step => .ofOutcome .signal (step.run m)
  | .tick => .ofOutcome .flag (tick.run m)
  | .takeTone => .ofOutcome .flag (takeToneEnded.run m)
  | .press key => .ofOutcome (fun _ => .done) ((press key).run m)
  | .release key => .ofOutcome (fun _ => .done) ((release key).run m)
  | .setKeys keypad => .ofOutcome (fun _ => .done) ((setKeys keypad).run m)
  | .frame cycles keys => .ofFrame (m.frame cycles keys)

/-- The machine after a session. -/
def after (m : Machine) : List Request → Machine
  | [] => m
  | r :: rs => (m.serve r).machine.after rs

/-- The replies of a session. -/
def replies (m : Machine) : List Request → List Reply
  | [] => []
  | r :: rs => m.serve r :: (m.serve r).machine.replies rs

theorem after_append (m : Machine) (rs rs' : List Request) :
    m.after (rs ++ rs') = (m.after rs).after rs' := by
  induction rs generalizing m with
  | nil => rfl
  | cons r rs ih => exact ih _

end Machine

end Chip8
