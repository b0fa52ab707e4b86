import Chip8.Machine.Session
import Chip8.Proofs.Decoding

/-!
# Cycles

How a cycle ends. It may find no word at the program counter, a word that is no instruction, an
instruction that is refused, or one that is performed.

* `executes`: every cycle ends in one of these four ways.
* `failed_instruction_atomic`: a failed cycle, step or instruction leaves everything as it was, except
  that a fetched word is remembered.
-/

namespace Chip8

theorem Memory.readWord_eq_ok_iff {m : Memory} {a : Nat} {w : Word} :
    m.readWord a = .ok w ↔
      a + instructionSize ≤ memorySize ∧ w = Word.ofBytes (m.byteAt a) (m.byteAt (a + 1)) := by
  unfold readWord
  split
  · simp_all [eq_comm]
  · rename_i h
    simp [h]

theorem Memory.readWord_of_lt (m : Memory) {a : Nat} (h : memorySize < a + instructionSize) :
    m.readWord a = .error (.outOfBounds a instructionSize) := by
  rw [readWord, if_neg (Nat.not_le_of_lt h)]

/-- The address of a word in memory fits into an entry of the stack. -/
theorem Memory.toNat_toUInt16_of_le {a : Nat} (h : a + instructionSize ≤ memorySize) :
    a.toUInt16.toNat = a := by
  have hle : a + 2 ≤ 4096 := h
  exact Nat.mod_eq_of_lt (show a < 65536 by omega)

/-- A word whose two bytes were stored together is read back. -/
theorem Memory.readWord_poke (m : Memory) {a k : Nat} {bs : List UInt8} {high low : UInt8}
    (hk : a + k + instructionSize ≤ memorySize) (hh : bs[k]? = some high)
    (hl : bs[k + 1]? = some low) :
    (m.poke a bs).readWord (a + k) = .ok (Word.ofBytes high low) := by
  have hlt : a + k + 1 < memorySize := hk
  have hhigh : (m.poke a bs).byteAt (a + k) = high := by
    rw [byteAt_poke _ _ _ _ (by omega), if_pos (by omega), Nat.add_sub_cancel_left, hh]
    rfl
  have hlow : (m.poke a bs).byteAt (a + k + 1) = low := by
    rw [byteAt_poke _ _ _ _ (by omega), if_pos (by omega), Nat.add_assoc,
      Nat.add_sub_cancel_left, hl]
    rfl
  exact readWord_eq_ok_iff.2 ⟨hk, by rw [hhigh, hlow]⟩

/-- A word of a program is read back behind the program start. -/
theorem Memory.readWord_program (m : Memory) {program : List UInt8} {k : Nat} {high low : UInt8}
    (hfit : program.length ≤ programCapacity) (hh : program[k]? = some high)
    (hl : program[k + 1]? = some low) :
    (m.poke programStart program).readWord (programStart + k) = .ok (Word.ofBytes high low) := by
  have hk : k + 1 < program.length := (List.getElem?_eq_some_iff.1 hl).1
  have hfit : program.length ≤ 4096 - 512 := hfit
  exact m.readWord_poke (show 512 + k + 2 ≤ 4096 by omega) hh hl

namespace Instruction.Performs

variable {m m' : Machine} {i : Instruction} {step : Step} {signal : Signal} {log : List Record}

/-- An instruction leaves the program counter to its step. -/
theorem pc_eq (h : Performs m i m' step signal log) : m'.pc = m.pc := by
  cases h <;> rfl

end Instruction.Performs

namespace Machine

open Instruction Routine

/-- The last fetched word after a cycle: a failed fetch does not change it. -/
def fetchedOpcode (m : Machine) : Word :=
  match m.memory.readWord m.pc with
  | .ok w => w
  | .error _ => m.opcode

/-- **A cycle** of the machine ends with this outcome. -/
inductive Executes (m : Machine) : Outcome Signal → Prop
  | noWord (h : memorySize < m.pc + instructionSize) :
    Executes m ⟨.error (.memory (.outOfBounds m.pc instructionSize)), m,
      [.failed m.pc (.memory (.outOfBounds m.pc instructionSize))]⟩
  | unknown {w : Word} (hw : m.memory.readWord m.pc = .ok w) (hd : ofWord? w = none) :
    Executes m ⟨.error (.opcode ⟨w⟩), { m with opcode := w },
      [.fetched m.pc w, .failed m.pc (.opcode ⟨w⟩)]⟩
  | refused {w : Word} {i : Instruction} {e : Fault} (hw : m.memory.readWord m.pc = .ok w)
    (hd : decode w = .ok i) (hr : Refuses { m with opcode := w } i e) :
    Executes m ⟨.error e, { m with opcode := w }, [.fetched m.pc w, .failed m.pc e]⟩
  | performed {w : Word} {i : Instruction} {m' : Machine} {step : Step} {signal : Signal}
    {log : List Record} (hw : m.memory.readWord m.pc = .ok w) (hd : decode w = .ok i)
    (hp : Performs { m with opcode := w } i m' step signal log) :
    Executes m ⟨.ok signal, { m' with pc := step.advance m.pc }, .fetched m.pc w :: log⟩

variable {m : Machine} {e : Fault}

theorem run_noteFailure {α : Type} (pc : Nat) (a : Routine α) (m : Machine) :
    (noteFailure pc a).run m =
      match (a.run m).result with
      | .ok _ => a.run m
      | .error e => { a.run m with log := (a.run m).log ++ [.failed pc e] } :=
  rfl

theorem run_fetch_of_ok {w : Word} (h : m.memory.readWord m.pc = .ok w) :
    fetch.run m = ⟨.ok w, { m with opcode := w }, [.fetched m.pc w]⟩ := by
  simp [fetch, h]

theorem run_fetch_of_error {f : Memory.Fault} (h : m.memory.readWord m.pc = .error f) :
    fetch.run m = ⟨.error (.memory f), m, []⟩ := by
  simp [fetch, h]

theorem run_of_executes {o : Outcome Signal} (h : Executes m o) : execute.run m = o := by
  cases h with
  | noWord h =>
    simp [execute, run_noteFailure, run_fetch_of_error (m.memory.readWord_of_lt h)]
  | unknown hw hd =>
    have hu := decode_eq_error_iff.2 ⟨hd, rfl⟩
    simp [execute, run_noteFailure, run_fetch_of_ok hw, performWord, hu]
  | refused hw hd hr =>
    simp [execute, run_noteFailure, run_fetch_of_ok hw, performWord, hd, run_perform,
      run_of_refuses hr]
  | performed hw hd hp =>
    simp [execute, run_noteFailure, run_fetch_of_ok hw, performWord, hd, run_perform,
      run_of_performs hp, hp.pc_eq]

/-- **Every cycle** ends in one of the four ways. -/
theorem executes (m : Machine) : Executes m (execute.run m) := by
  have of {o : Outcome Signal} (h : Executes m o) : Executes m (execute.run m) :=
    run_of_executes h ▸ h
  -- the ways are told apart in the order in which a cycle meets them: fetch, decode, effect
  rcases Nat.lt_or_ge memorySize (m.pc + instructionSize) with hlt | hle
  · exact of (.noWord hlt)
  obtain ⟨w, hw⟩ : ∃ w, m.memory.readWord m.pc = .ok w :=
    ⟨_, Memory.readWord_eq_ok_iff.2 ⟨hle, rfl⟩⟩
  rcases hd : decode w with u | i
  · exact of (.unknown hw (decode_eq_error_iff.1 hd).1)
  rcases performs_or_refuses { m with opcode := w } (namesRegisters_of_decode hd) with
    ⟨m', step, signal, log, hp⟩ | ⟨e, hr⟩
  · exact of (.performed hw hd hp)
  · exact of (.refused hw hd hr)

/-- A cycle that succeeds has performed the instruction at the program counter. -/
theorem performed_of_ok {signal : Signal} (h : (execute.run m).result = .ok signal) :
    ∃ w i m' step log, m.memory.readWord m.pc = .ok w ∧ decode w = .ok i ∧
      Performs { m with opcode := w } i m' step signal log ∧
      execute.run m = ⟨.ok signal, { m' with pc := step.advance m.pc }, .fetched m.pc w :: log⟩ := by
  have hx := executes m
  generalize execute.run m = o at hx h
  cases hx with
  | noWord | unknown | refused => cases h
  | performed hw hd hp =>
    cases h
    exact ⟨_, _, _, _, _, hw, hd, hp, rfl⟩

/-- A cycle that fails changes nothing but the fetched word. -/
theorem machine_of_error (h : (execute.run m).result = .error e) :
    (execute.run m).machine = { m with opcode := m.fetchedOpcode } := by
  have hx := executes m
  generalize execute.run m = o at hx h
  cases hx with
  | noWord hlt => simp only [fetchedOpcode, m.memory.readWord_of_lt hlt]
  | unknown hw | refused hw => simp only [fetchedOpcode, hw]
  | performed => cases h

theorem run_step (m : Machine) :
    step.run m = (execute.run m).andThen fun signal m' =>
      (tick.run m').andThen fun _ m'' => ⟨.ok signal, m'', []⟩ :=
  rfl

/-- Notes change nothing. -/
theorem run_notes (l : List Record) (m : Machine) : (forM l note).run m = ⟨.ok (), m, l⟩ := by
  induction l with
  | nil => rfl
  | cons r l ih => simp [ih]

theorem run_load_of_ok {p : List UInt8} {memory : Memory} (h : m.memory.load p = .ok memory) :
    (Machine.load p).run m = ⟨.ok (), { m with memory }, [.loaded p.length]⟩ := by
  simp [Machine.load, h]

theorem run_load_of_error {p : List UInt8} {f : Memory.Fault} (h : m.memory.load p = .error f) :
    (Machine.load p).run m = ⟨.error (.memory f), m, []⟩ := by
  simp [Machine.load, h]

theorem run_setKey (key : Nat) (pressed : Bool) (m : Machine) :
    (setKey key pressed).run m =
      ⟨.ok (), { m with keypad := m.keypad.set key pressed }, Keypad.notes key⟩ := by
  simp [setKey, run_notes]

theorem run_tick (m : Machine) :
    tick.run m = ⟨.ok m.timers.endsTone,
      { m with timers := m.timers.tick, toneEnded := m.toneEnded || m.timers.endsTone },
      m.timers.notes⟩ := by
  simp [tick, run_notes]

/-- A step fails exactly when its cycle does, and then it does not tick. -/
theorem run_step_of_error (h : (execute.run m).result = .error e) : step.run m =
    ⟨.error e, (execute.run m).machine, (execute.run m).log⟩ := by
  rw [run_step, Outcome.andThen, h]

theorem run_step_of_ok {signal : Signal} (h : (execute.run m).result = .ok signal) :
    step.run m = ⟨.ok signal, (tick.run (execute.run m).machine).machine,
      (execute.run m).log ++ (tick.run (execute.run m).machine).log⟩ := by
  rw [run_step, Outcome.andThen, h]
  simp [run_tick]

/-- **A failed instruction is atomic.** A cycle or step that fails leaves the machine as it was but
for the word it fetched, and an instruction that names existing registers and fails, whatever its
other operands, leaves the machine as it was. -/
theorem failed_instruction_atomic (m : Machine) :
    (∀ e, (execute.run m).result = .error e →
      (execute.run m).machine = { m with opcode := m.fetchedOpcode }) ∧
    (∀ e, (step.run m).result = .error e →
      (step.run m).machine = { m with opcode := m.fetchedOpcode }) ∧
    ∀ i : Instruction, i.NamesRegisters → ∀ e, (i.perform.run m).result = .error e →
      (i.perform.run m).machine = m := by
  refine ⟨fun e he => machine_of_error he, fun e he => ?_, fun i hi e he => ?_⟩
  -- a step fails in its cycle, since the tick that follows cannot fail
  · rcases hx : (execute.run m).result with e' | signal
    · rw [run_step_of_error hx]
      exact machine_of_error hx
    · rw [run_step_of_ok hx] at he
      cases he
  · rcases hx : (i.effect.run m).result with e' | ⟨step, signal⟩
    · rw [run_perform, effect_error hi hx, Outcome.andThen_error]
    · rw [run_perform, Outcome.andThen, hx] at he
      cases he

/-- A return without a call, and a sprite that reaches beyond memory. -/
theorem failed_return_atomic :
    let m := { boot (.repeating #[]) with memory := Memory.blank.poke programStart [0x00, 0xEE] }
    ((execute.run m).result = .error (.stack .empty) ∧
      (execute.run m).machine = { m with opcode := m.fetchedOpcode }) ∧
    ((step.run m).result = .error (.stack .empty) ∧
      (step.run m).machine = { m with opcode := m.fetchedOpcode }) ∧
    (draw 0 1 4097).NamesRegisters ∧
      ((draw 0 1 4097).perform.run m).result = .error (.memory (.outOfBounds 0 4097)) ∧
      ((draw 0 1 4097).perform.run m).machine = m := by
  intro m
  have hw : m.memory.readWord (programStart + 0) = .ok (Word.ofBytes 0x00 0xEE) :=
    Memory.blank.readWord_poke (by decide) rfl rfl
  have hx := run_of_executes (.refused hw (i := ret) rfl (.ret rfl))
  obtain ⟨hexec, hstep, hperform⟩ := failed_instruction_atomic m
  have hnames : (draw 0 1 4097).NamesRegisters := by decide
  have hdraw : (draw 0 1 4097).Refuses m (.memory (.outOfBounds 0 4097)) :=
    .draw (by decide) (by decide) (by decide)
  refine ⟨⟨by rw [hx], hexec _ (by rw [hx])⟩, ?_, hnames, ?_⟩
  · have hs := run_step_of_error (by rw [hx])
    exact ⟨by rw [hs], hstep _ (by rw [hs])⟩
  · have hp : ((draw 0 1 4097).perform.run m).result = .error (.memory (.outOfBounds 0 4097)) := by
      rw [run_perform, run_of_refuses hdraw, Outcome.andThen_error]
    exact ⟨hp, hperform _ hnames _ hp⟩

end Machine

end Chip8
