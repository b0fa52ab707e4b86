import Chip8.Proofs.Assembly

/-!
# Ways to an instruction

An instruction is performed as such, in a cycle that meets it at the program counter, or in a step.
The cycle remembers the word that it fetched and the step counts the timers down, but what the
instruction itself does is the same.

* `Invokes.effect`: an instruction has its effect however it is invoked.
-/

namespace Chip8

namespace Machine

open Instruction

/-- **The instruction is invoked** by the routine: the routine is the instruction itself, or a cycle
or a step of a machine that has the instruction at the program counter. -/
inductive Invokes (m : Machine) (i : Instruction) : Routine Signal → Prop
  | perform : Invokes m i i.perform
  | cycle (h : m.memory.Holds m.pc i) : Invokes m i execute
  | step (h : m.memory.Holds m.pc i) : Invokes m i step

variable {m : Machine} {i : Instruction} {r : Routine Signal}

/-- A cycle leaves what the instruction at the program counter leaves, but for the program
counter. -/
theorem execute_effect (h : m.memory.Holds m.pc i) :
    ∃ w pc, (execute.run m).result = (i.effect.run { m with opcode := w }).result.map Prod.snd ∧
      (execute.run m).machine = { (i.effect.run { m with opcode := w }).machine with pc } := by
  obtain ⟨w, hw, hd⟩ := h
  rcases performs_or_refuses { m with opcode := w } (namesRegisters_of_decode hd) with
    ⟨m', step, signal, log, hp⟩ | ⟨e, hr⟩
  · refine ⟨w, step.advance m.pc, ?_⟩
    rw [run_of_executes (.performed hw hd hp), run_of_performs hp]
    exact ⟨rfl, rfl⟩
  · refine ⟨w, m.pc, ?_⟩
    rw [run_of_executes (.refused hw hd hr), run_of_refuses hr]
    exact ⟨rfl, rfl⟩

/-- A step leaves what its cycle leaves, but for the timers and the tone. -/
theorem step_execute (m : Machine) :
    (step.run m).result = (execute.run m).result ∧
      ∃ timers toneEnded, (step.run m).machine = { (execute.run m).machine with timers, toneEnded } := by
  rcases hx : (execute.run m).result with e | signal
  · rw [run_step_of_error hx]
    exact ⟨rfl, _, _, rfl⟩
  · rw [run_step_of_ok hx, run_tick]
    exact ⟨rfl, _, _, rfl⟩

/-- **An instruction has its effect** however it is invoked: on the machine that remembers some word
as the last one, and but for the program counter, the timers and the tone. -/
theorem Invokes.effect (h : m.Invokes i r) :
    ∃ w, (r.run m).result = (i.effect.run { m with opcode := w }).result.map Prod.snd ∧
      ∃ pc timers toneEnded, (r.run m).machine =
        { (i.effect.run { m with opcode := w }).machine with pc, timers, toneEnded } := by
  cases h with
  | perform =>
    refine ⟨m.opcode, ?_⟩
    rw [run_perform, Outcome.andThen]
    rcases (i.effect.run m).result with e | ⟨step, signal⟩
    · exact ⟨rfl, _, _, _, rfl⟩
    · exact ⟨rfl, _, _, _, rfl⟩
  | cycle h =>
    obtain ⟨w, pc, hresult, hmachine⟩ := execute_effect h
    exact ⟨w, hresult, pc, _, _, hmachine⟩
  | step h =>
    obtain ⟨w, pc, hresult, hmachine⟩ := execute_effect h
    obtain ⟨hstep, timers, toneEnded, hticked⟩ := m.step_execute
    refine ⟨w, hstep.trans hresult, pc, timers, toneEnded, ?_⟩
    rw [hticked, hmachine]

end Machine

end Chip8
