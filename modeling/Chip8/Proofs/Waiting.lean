import Chip8.Proofs.Requests

/-!
# Waiting for a key

An instruction that waits for a key leaves the machine so that the same instruction comes again, and
while the keys do not change it waits again and changes nothing more. A frame does not change the
keys, so the cycles that it gives up once an instruction waits would have done nothing.

* `execute_of_wait`: after a cycle that waits, the next cycle is the same once more.
* `cycles_eq_fullCycles`: the cycles of a frame end as if none of them was given up.
* `early_end_changes_nothing`: a frame that ends its cycles early does what the full frame does.
-/

namespace Chip8

namespace Machine

open Instruction Routine

/-- All `n` cycles, also after an instruction that waits, ending only at the first one that fails;
whether the screen was drawn on. -/
def fullCycles : Nat → Routine Bool
  | 0 => pure false
  | n + 1 => do
    let signal ← execute
    let redraw ← fullCycles n
    pure (signal == .redraw || redraw)

/-- A frame around given cycles, with the keys of the host. -/
def frameAround (body : Routine Bool) (m : Machine) (keys : Keypad) : Frame :=
  let ran := body.run { m with keypad := keys }
  match ran.result with
  | .error e => ⟨.error e, ran.machine, ran.log, [.readKeys]⟩
  | .ok redraw =>
    let ticked := tick.run ran.machine
    let taken := takeToneEnded.run ticked.machine
    let screen := if redraw then [.present taken.machine.screen] else []
    let tone := if ticked.machine.toneEnded then [.stopTone] else []
    ⟨.ok (), taken.machine, ran.log ++ ticked.log, .readKeys :: screen ++ tone⟩

/-- A frame that goes on with its cycles while an instruction waits. -/
def fullFrame (m : Machine) (n : Nat) (keys : Keypad) : Frame :=
  frameAround (fullCycles n) m keys

variable {m m' : Machine} {log : List Record}

theorem frame_eq_frameAround (m : Machine) (n : Nat) (keys : Keypad) :
    m.frame n keys = frameAround (cycles n) m keys :=
  rfl

theorem run_fullCycles_succ (n : Nat) (m : Machine) :
    (fullCycles (n + 1)).run m = (execute.run m).andThen fun signal m' =>
      ((fullCycles n).run m').andThen fun redraw m'' =>
        ⟨.ok (signal == .redraw || redraw), m'', []⟩ :=
  rfl

/-- **After a cycle that waits**, the next cycle is the same once more. -/
theorem execute_of_wait (h : execute.run m = ⟨.ok .wait, m', log⟩) :
    execute.run m' = ⟨.ok .wait, m', log⟩ := by
  obtain ⟨w, i, _, step, log', hw, hd, hp, hrun⟩ := performed_of_ok (congrArg Outcome.result h)
  rw [h] at hrun
  cases hp with
  | awaitNoKey x hkeys =>
    -- the program counter stays, and the word that was fetched is remembered already
    cases hrun
    exact run_of_executes (m := { m with opcode := w }) (.performed hw hd (.awaitNoKey x hkeys))

/-- Cycles after one that waits change nothing and draw nothing, however many there are. -/
theorem fullCycles_of_wait (h : execute.run m = ⟨.ok .wait, m, log⟩) (n : Nat) :
    ((fullCycles n).run m).result = .ok false ∧ ((fullCycles n).run m).machine = m := by
  induction n with
  | zero => exact ⟨rfl, rfl⟩
  | succ n ih =>
    obtain ⟨hresult, hmachine⟩ := ih
    rw [run_fullCycles_succ, h, Outcome.andThen_ok, Outcome.andThen, hresult]
    exact ⟨rfl, hmachine⟩

/-- **The cycles of a frame end as if none of them was given up.** -/
theorem cycles_eq_fullCycles (n : Nat) (m : Machine) :
    ((cycles n).run m).result = ((fullCycles n).run m).result ∧
      ((cycles n).run m).machine = ((fullCycles n).run m).machine := by
  -- on the cycles that are left, for whatever machine the first one leaves
  induction n generalizing m with
  | zero => exact ⟨rfl, rfl⟩
  | succ n ih =>
    rw [run_cycles_succ, run_fullCycles_succ]
    rcases hx : execute.run m with ⟨e | signal, m', log⟩
    · exact ⟨rfl, rfl⟩
    · cases signal with
      | nothing | redraw =>
        obtain ⟨hresult, hmachine⟩ := ih m'
        simp only [Outcome.andThen]
        rw [hresult, hmachine]
        rcases ((fullCycles n).run m').result with e | redraw <;> exact ⟨rfl, rfl⟩
      | wait =>
        -- the frame is over, and the full frame waits until its end
        obtain ⟨hresult, hmachine⟩ := fullCycles_of_wait (execute_of_wait hx) n
        simp only [Outcome.andThen]
        rw [hresult, hmachine]
        exact ⟨rfl, rfl⟩

/-- Frames around cycles that end with the same result and the same machine differ in their notes
only. -/
theorem frameAround_congr {a b : Routine Bool} {keys : Keypad}
    (hresult : (a.run { m with keypad := keys }).result = (b.run { m with keypad := keys }).result)
    (hmachine : (a.run { m with keypad := keys }).machine =
      (b.run { m with keypad := keys }).machine) :
    (frameAround a m keys).result = (frameAround b m keys).result ∧
      (frameAround a m keys).calls = (frameAround b m keys).calls ∧
      (frameAround a m keys).machine = (frameAround b m keys).machine := by
  rcases ha : a.run { m with keypad := keys } with ⟨result, ran, log⟩
  rcases hb : b.run { m with keypad := keys } with ⟨result', ran', log'⟩
  rw [ha, hb] at hresult hmachine
  obtain rfl : result = result' := hresult
  obtain rfl : ran = ran' := hmachine
  rw [frameAround, frameAround, ha, hb]
  cases result <;> exact ⟨rfl, rfl, rfl⟩

/-- **Ending the cycles early changes nothing.** For every machine, every number of cycles and all
keys, a frame that gives up its remaining cycles at the first instruction that waits has the same
result as the full frame, makes the same calls to the devices of the host in the same order, and
leaves the same machine. -/
theorem early_end_changes_nothing (m : Machine) (n : Nat) (keys : Keypad) :
    (m.frame n keys).result = (m.fullFrame n keys).result ∧
      (m.frame n keys).calls = (m.fullFrame n keys).calls ∧
      (m.frame n keys).machine = (m.fullFrame n keys).machine := by
  obtain ⟨hresult, hmachine⟩ := cycles_eq_fullCycles n { m with keypad := keys }
  rw [frame_eq_frameAround, fullFrame]
  exact frameAround_congr hresult hmachine

end Machine

end Chip8
