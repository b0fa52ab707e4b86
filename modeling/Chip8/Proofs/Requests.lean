import Chip8.Proofs.Cycle

/-!
# Requests

What a request leaves, and when it fails, by what the routine behind it does.

* `serve_execute_machine`, `serve_tick_machine` and the others: the machine that a request leaves.
* `frame_of_cycles_ok`, `frame_of_cycles_error`: what a frame leaves behind its cycles.
* `serve_step_eq_error_iff`, `serve_frame_eq_error_iff`: a step and a frame fail in their cycles.
-/

namespace Chip8

namespace Machine

variable {m : Machine} {e : Fault} {n : Nat} {keys : Keypad}

theorem serve_execute_machine (m : Machine) :
    (m.serve .execute).machine = (execute.run m).machine :=
  rfl

theorem serve_step_machine (m : Machine) : (m.serve .step).machine = (step.run m).machine :=
  rfl

theorem serve_frame_machine (m : Machine) (n : Nat) (keys : Keypad) :
    (m.serve (.frame n keys)).machine = (m.frame n keys).machine :=
  rfl

theorem serve_tick_machine (m : Machine) :
    (m.serve .tick).machine =
      { m with timers := m.timers.tick, toneEnded := m.toneEnded || m.timers.endsTone } :=
  congrArg Outcome.machine (run_tick m)

theorem serve_press_machine (m : Machine) (key : Nat) :
    (m.serve (.press key)).machine = { m with keypad := m.keypad.set key true } :=
  congrArg Outcome.machine (run_setKey key true m)

theorem serve_release_machine (m : Machine) (key : Nat) :
    (m.serve (.release key)).machine = { m with keypad := m.keypad.set key false } :=
  congrArg Outcome.machine (run_setKey key false m)

theorem serve_setKeys_machine (m : Machine) (keys : Keypad) :
    (m.serve (.setKeys keys)).machine = { m with keypad := keys } :=
  rfl

theorem serve_load_machine_of_ok {program : List UInt8} {memory : Memory}
    (h : m.memory.load program = .ok memory) :
    (m.serve (.load program)).machine = { m with memory } :=
  congrArg Outcome.machine (run_load_of_ok h)

theorem serve_load_machine_of_error {program : List UInt8} {f : Memory.Fault}
    (h : m.memory.load program = .error f) : (m.serve (.load program)).machine = m :=
  congrArg Outcome.machine (run_load_of_error h)

/-- **A frame whose cycles do not fail** counts the timers down, and tells the host of the screen
that was drawn and of the tone that ended. -/
theorem frame_of_cycles_ok {redraw : Bool} {ran : Machine} {log : List Record}
    (h : (cycles n).run { m with keypad := keys } = ⟨.ok redraw, ran, log⟩) :
    m.frame n keys =
      ⟨.ok (), { ran with timers := ran.timers.tick, toneEnded := false },
        log ++ ran.timers.notes,
        .readKeys :: (if redraw then [.present ran.screen] else []) ++
          if ran.toneEnded || ran.timers.endsTone then [.stopTone] else []⟩ := by
  rw [frame, h]
  simp only [run_tick]
  rfl

/-- A frame with a cycle that fails is over at once. -/
theorem frame_of_cycles_error
    (h : ((cycles n).run { m with keypad := keys }).result = .error e) :
    m.frame n keys =
      ⟨.error e, ((cycles n).run { m with keypad := keys }).machine,
        ((cycles n).run { m with keypad := keys }).log, [.readKeys]⟩ := by
  rw [frame, h]

/-- The cycles of a frame that succeeds do not fail. -/
theorem cycles_of_frame_ok (h : (m.frame n keys).result = .ok ()) :
    ∃ redraw ran log, (cycles n).run { m with keypad := keys } = ⟨.ok redraw, ran, log⟩ := by
  rcases hc : (cycles n).run { m with keypad := keys } with ⟨e | redraw, ran, log⟩
  · rw [frame_of_cycles_error (by rw [hc])] at h
    cases h
  · exact ⟨redraw, ran, log, rfl⟩

theorem map_eq_error_iff {α β : Type} {f : α → β} {r : Except Fault α} :
    r.map f = .error e ↔ r = .error e := by
  cases r <;> simp [Except.map]

theorem serve_execute_eq_error_iff :
    (m.serve .execute).result = .error e ↔ (execute.run m).result = .error e :=
  map_eq_error_iff

theorem serve_execute_eq_ok {signal : Signal} (h : (execute.run m).result = .ok signal) :
    (m.serve .execute).result = .ok (.signal signal) :=
  congrArg (Except.map Answer.signal) h

/-- **A step fails in its cycle.** -/
theorem serve_step_eq_error_iff :
    (m.serve .step).result = .error e ↔ (execute.run m).result = .error e := by
  refine map_eq_error_iff.trans ?_
  rcases hx : (execute.run m).result with f | signal
  · rw [run_step_of_error hx]
  · rw [run_step_of_ok hx]

/-- **A frame fails in its cycles.** -/
theorem serve_frame_eq_error_iff :
    (m.serve (.frame n keys)).result = .error e ↔
      ((cycles n).run { m with keypad := keys }).result = .error e := by
  refine map_eq_error_iff.trans ?_
  rcases hc : (cycles n).run { m with keypad := keys } with ⟨f | redraw, ran, log⟩
  · rw [frame_of_cycles_error (by rw [hc])]
    simp
  · rw [frame_of_cycles_ok hc]
    simp

end Machine

end Chip8
