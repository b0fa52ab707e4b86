import Chip8.Proofs.Core

/-!
# Halted machines

Whether a cycle fails is decided by memory, the program counter, the registers and the stack. A
failed cycle leaves them alone, and so does the host as long as it loads no program: the machine is
halted, and each further cycle fails in the same way.

* `halted_of_serve`: a request whose cycle fails leaves a halted machine.
* `Halted.serve`: a halted machine stays as it is under every request other than a load.
* `fault_is_permanent`: the fault comes again in every later cycle, and only a load can end this.
-/

namespace Chip8

/-- The request executes at least one instruction. -/
def Request.Executes : Request → Prop
  | execute | step => True
  | frame cycles _ => 0 < cycles
  | load _ | tick | takeTone | press _ | release _ | setKeys _ => False

namespace Machine

open Instruction

variable {m n : Machine} {e : Fault}

/-- Every cycle meets this fault, and it fetches no other word than the last one. -/
structure Halted (m : Machine) (e : Fault) : Prop where
  result_eq : (execute.run m).result = .error e
  opcode_eq : m.opcode = m.fetchedOpcode

/-- A failure depends on memory, the program counter, the registers and the stack only. -/
theorem error_congr (h : (execute.run m).result = .error e) (hmemory : m.memory = n.memory)
    (hpc : m.pc = n.pc) (hregisters : m.registers = n.registers) (hstack : m.stack = n.stack) :
    (execute.run n).result = .error e := by
  have hx := executes m
  generalize execute.run m = o at hx h
  cases hx with
  | noWord hlt =>
    cases h
    rw [hpc] at hlt ⊢
    rw [run_of_executes (.noWord hlt)]
  | unknown hw hd =>
    cases h
    rw [hmemory, hpc] at hw
    rw [run_of_executes (.unknown hw hd)]
  | refused hw hd hr =>
    cases h
    rw [hmemory, hpc] at hw
    rw [run_of_executes (.refused hw hd (hr.congr hregisters hstack))]
  | performed => cases h

/-- A failed cycle leaves a halted machine. -/
theorem halted_of_error (h : (execute.run m).result = .error e) :
    Halted (execute.run m).machine e := by
  have hsame : fetchedOpcode { m with opcode := m.fetchedOpcode } = m.fetchedOpcode := by
    unfold fetchedOpcode
    cases m.memory.readWord m.pc <;> rfl
  rw [machine_of_error h]
  exact ⟨error_congr h rfl rfl rfl rfl, hsame.symm⟩

/-- A request whose cycle fails leaves a halted machine. -/
theorem halted_of_serve {r : Request} (hr : r.Executes) (h : (m.serve r).result = .error e) :
    Halted (m.serve r).machine e := by
  cases r with
  | execute =>
    rw [serve_execute_machine]
    exact halted_of_error (serve_execute_eq_error_iff.1 h)
  | step =>
    have hx := serve_step_eq_error_iff.1 h
    rw [serve_step_machine, run_step_of_error hx]
    exact halted_of_error hx
  | frame k keys =>
    have hc := serve_frame_eq_error_iff.1 h
    obtain ⟨last, -, hx, hlast⟩ := exists_failed_cycle hc
    rw [serve_frame_machine, frame_of_cycles_error hc, hlast]
    exact halted_of_error hx
  | load | tick | takeTone | press | release | setKeys => exact hr.elim

namespace Halted

/-- A machine with the core of a halted machine is halted. -/
theorem of_core (h : Halted m e) (hcore : m.core = n.core) : Halted n e := by
  obtain ⟨timers, keypad, tone, rfl⟩ := exists_of_core hcore
  exact ⟨error_congr h.result_eq rfl rfl rfl rfl, h.opcode_eq⟩

/-- A cycle changes nothing of a halted machine. -/
theorem machine_eq (h : Halted m e) : (execute.run m).machine = m := by
  rw [machine_of_error h.result_eq, ← h.opcode_eq]

/-- The cycles of a frame end with the first one, whatever the keys are. -/
theorem cycles_succ (h : Halted m e) (k : Nat) (keys : Keypad) :
    (cycles (k + 1)).run { m with keypad := keys } =
      ⟨.error e, { m with keypad := keys }, (execute.run { m with keypad := keys }).log⟩ := by
  have hready : Halted { m with keypad := keys } e := h.of_core rfl
  rw [run_cycles_succ, Outcome.andThen, hready.result_eq, hready.machine_eq]

/-- **A halted machine stays halted**: a request other than a load leaves its core alone, and fails
with the same fault if it executes anything. -/
theorem serve (h : Halted m e) {r : Request} (hload : ∀ program, r ≠ .load program) :
    (m.serve r).machine.core = m.core ∧ (r.Executes → (m.serve r).result = .error e) := by
  cases r with
  | execute =>
    refine ⟨?_, fun _ => serve_execute_eq_error_iff.2 h.result_eq⟩
    rw [serve_execute_machine, h.machine_eq]
  | step =>
    refine ⟨?_, fun _ => serve_step_eq_error_iff.2 h.result_eq⟩
    rw [serve_step_machine, run_step_of_error h.result_eq, h.machine_eq]
  | frame k keys =>
    cases k with
    | zero =>
      -- a frame without cycles ticks, and asks for the tone
      refine ⟨?_, fun hpos => absurd hpos (Nat.lt_irrefl 0)⟩
      rw [serve_frame_machine, frame_of_cycles_ok (run_cycles_zero _)]
      rfl
    | succ k =>
      have hcycles := h.cycles_succ k keys
      refine ⟨?_, fun _ => ?_⟩
      · rw [serve_frame_machine, frame_of_cycles_error (by rw [hcycles]), hcycles]
        rfl
      · rw [serve_frame_eq_error_iff, hcycles]
  | load program => exact absurd rfl (hload program)
  | tick | takeTone | press | release | setKeys =>
    exact ⟨core_serve m trivial nofun nofun, False.elim⟩

/-- A session without a load, on a halted machine. -/
theorem moments (h : Halted m e) {rs : List Request} (hload : ∀ program, .load program ∉ rs) :
    ∀ q ∈ m.moments rs,
      (q.request.Executes → q.reply.result = .error e) ∧ q.after.core = m.core := by
  induction rs generalizing m with
  | nil => simp [Machine.moments]
  | cons r rs ih =>
    have hr : ∀ program, r ≠ .load program := by
      rintro program rfl
      exact hload program List.mem_cons_self
    obtain ⟨hcore, hresult⟩ := h.serve hr
    have hrest := ih (h.of_core hcore.symm) fun p hp => hload p (List.mem_cons_of_mem r hp)
    intro q hq
    rcases List.mem_cons.1 hq with rfl | hq
    · exact ⟨hresult, hcore⟩
    · obtain ⟨hfault, hq⟩ := hrest q hq
      exact ⟨hfault, hq.trans hcore⟩

end Halted

/-- **A fault is permanent.** Once an instruction has failed, in a cycle, a step or a frame: as long
as the host loads nothing, every cycle, step and frame of at least one cycle fails with the same
fault, and no request changes the core. If ever one of them does not fail with it, there has been a
load. -/
theorem fault_is_permanent {r : Request} (hr : r.Executes) (hfault : (m.serve r).result = .error e) :
    (∀ rs : List Request, (∀ program, .load program ∉ rs) →
      ∀ q ∈ (m.serve r).machine.moments rs,
        (q.request.Executes → q.reply.result = .error e) ∧
          q.after.core = (m.serve r).machine.core) ∧
    ∀ (rs : List Request) (s : Request), s.Executes →
      (((m.serve r).machine.after rs).serve s).result ≠ .error e →
        ∃ program, .load program ∈ rs := by
  have hhalted := halted_of_serve hr hfault
  refine ⟨fun rs hload => hhalted.moments hload, fun rs s hs hne => ?_⟩
  refine Classical.byContradiction fun hload => ?_
  have hload' : ∀ program, .load program ∉ rs ++ [s] := by
    intro program hp
    rcases List.mem_append.1 hp with hp | hp
    · exact hload ⟨program, hp⟩
    · obtain rfl := List.mem_singleton.1 hp
      exact hs
  -- the request in question is the last one of a longer session
  have hlast : ⟨(m.serve r).machine.after rs, s⟩ ∈ (m.serve r).machine.moments (rs ++ [s]) := by
    rw [moments_append]
    exact List.mem_append_right _ List.mem_cons_self
  exact hne ((hhalted.moments hload' _ hlast).1 hs)

/-- A return without a call, until another program is loaded. -/
theorem fault_is_permanent_return :
    let m := { boot (.repeating #[]) with memory := Memory.blank.poke programStart [0x00, 0xEE] }
    let halted := (m.serve .step).machine
    (m.serve .step).result = .error (.stack .empty) ∧
    (∀ q ∈ halted.moments [.press 5, .tick, .execute, .frame 2 .blank],
      (q.request.Executes → q.reply.result = .error (.stack .empty)) ∧
        q.after.core = halted.core) ∧
    ((halted.after [.load [0x12, 0x00]]).serve .execute).result = .ok (.signal .nothing) := by
  intro m halted
  have hw : m.memory.readWord (programStart + 0) = .ok (Word.ofBytes 0x00 0xEE) :=
    Memory.blank.readWord_poke (by decide) rfl rfl
  have hx := run_of_executes (.refused hw (i := ret) rfl (.ret rfl))
  have hfault : (m.serve .step).result = .error (.stack .empty) :=
    serve_step_eq_error_iff.2 (by rw [hx])
  obtain ⟨hsession, -⟩ := fault_is_permanent (r := .step) trivial hfault
  have hhalted : halted = { m with opcode := 0x00EE } := by
    have hmachine : halted = (step.run m).machine := serve_step_machine m
    rw [hmachine, run_step_of_error (by rw [hx]), hx]
    rfl
  -- the host loads a program that jumps to its own beginning
  let memory := m.memory.poke programStart [0x12, 0x00]
  have hload : halted.after [.load [0x12, 0x00]] = { m with opcode := 0x00EE, memory } := by
    rw [hhalted]
    exact serve_load_machine_of_ok (Memory.load_eq_ok_iff.2 ⟨by decide, rfl⟩)
  have hw' : memory.readWord (programStart + 0) = .ok (Word.ofBytes 0x12 0x00) :=
    m.memory.readWord_poke (by decide) rfl rfl
  have hx' := run_of_executes (m := { m with opcode := 0x00EE, memory })
    (.performed hw' (i := jump 0x200) rfl (.jump 0x200))
  refine ⟨hfault, hsession _ (by simp), ?_⟩
  rw [hload]
  exact serve_execute_eq_ok (by rw [hx'])

end Machine

end Chip8
