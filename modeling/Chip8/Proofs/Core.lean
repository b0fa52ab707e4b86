import Chip8.Proofs.History

/-!
# The core of the machine

What a program computes with: memory, registers, the program counter, the stack, the screen and the
random bytes. The timers, the keys and the tone are left out, for the host changes them between the
cycles. Four instructions look at a timer or at the keys. All others do the same on machines with
the same core, however these differ.

* `Performs.of_core`, `Refuses.congr`: the rules on machines that agree.
* `Executes.of_core`: a cycle on machines with the same core.
* `core_serve`: what the host does between the cycles leaves the core alone.
-/

namespace Chip8

/-- What a program computes with: the machine without timers, keys and tone. -/
structure Core where
  memory : Memory
  registers : Registers
  pc : Nat
  stack : Stack
  screen : Screen
  random : RandomSource
  opcode : Word

/-- The core of a machine. -/
def Machine.core (m : Machine) : Core :=
  ⟨m.memory, m.registers, m.pc, m.stack, m.screen, m.random, m.opcode⟩

/-- Machines with the same core differ in timers, keys and tone only. -/
theorem Machine.exists_of_core {m n : Machine} (h : m.core = n.core) :
    ∃ timers keypad toneEnded, n = { m with timers, keypad, toneEnded } := by
  obtain ⟨memory, registers, pc, stack, timers, screen, keypad, random, opcode, tone⟩ := n
  simp only [core, Core.mk.injEq] at h
  obtain ⟨rfl, rfl, rfl, rfl, rfl, rfl, rfl⟩ := h
  exact ⟨timers, keypad, tone, rfl⟩

namespace Instruction

/-- The instruction looks at a timer or at the keys. -/
def Senses : Instruction → Prop
  | readDelay _ | awaitKey _ | skipIfPressed _ | skipUnlessPressed _ => True
  | _ => False

variable {m m' n : Machine} {i : Instruction} {step : Step} {signal : Signal} {log : List Record}
  {e : Fault}

/-- **An instruction that does not look at timers or keys** does the same on machines with the same
core. -/
theorem Performs.of_core (h : Performs m i m' step signal log) (hi : ¬ i.Senses)
    (hcore : m.core = n.core) :
    ∃ n', Performs n i n' step signal log ∧ m'.core = n'.core := by
  obtain ⟨timers, keypad, tone, rfl⟩ := Machine.exists_of_core hcore
  cases h with
  | clear => exact ⟨_, .clear, rfl⟩
  | ret hs => exact ⟨_, .ret hs, rfl⟩
  | jump nnn => exact ⟨_, .jump nnn, rfl⟩
  | call nnn hd => exact ⟨_, .call nnn hd, rfl⟩
  | skipIfConst kk hx => exact ⟨_, .skipIfConst kk hx, rfl⟩
  | skipUnlessConst kk hx => exact ⟨_, .skipUnlessConst kk hx, rfl⟩
  | skipIfEqual hx hy => exact ⟨_, .skipIfEqual hx hy, rfl⟩
  | load kk hx => exact ⟨_, .load kk hx, rfl⟩
  | add kk hx => exact ⟨_, .add kk hx, rfl⟩
  | alu op hx hy => exact ⟨_, .alu op hx hy, rfl⟩
  | skipUnlessEqual hx hy => exact ⟨_, .skipUnlessEqual hx hy, rfl⟩
  | loadIndex nnn => exact ⟨_, .loadIndex nnn, rfl⟩
  | jumpOffset nnn => exact ⟨_, .jumpOffset nnn, rfl⟩
  | random kk hx => exact ⟨_, .random kk hx, rfl⟩
  | draw hx hy hn hdraw =>
    exact ⟨_, .draw (m := { m with timers, keypad, toneEnded := tone }) hx hy hn hdraw, rfl⟩
  -- the four that look
  | skipIfPressed | skipUnlessPressed | readDelay | awaitNoKey | awaitKey =>
    exact absurd trivial hi
  -- a timer that is set is no part of the core
  | setDelay hx => exact ⟨_, .setDelay hx, rfl⟩
  | setSound hx => exact ⟨_, .setSound hx, rfl⟩
  | addIndex hx => exact ⟨_, .addIndex hx, rfl⟩
  | loadGlyph hx => exact ⟨_, .loadGlyph hx, rfl⟩
  | storeDecimal hx hn => exact ⟨_, .storeDecimal hx hn, rfl⟩
  | storeRegisters hx hn => exact ⟨_, .storeRegisters hx hn, rfl⟩
  | fetchRegisters hx hn => exact ⟨_, .fetchRegisters hx hn, rfl⟩

/-- Whether an instruction is refused, and how, depends on the registers and the stack only. -/
theorem Refuses.congr (h : Refuses m i e) (hregisters : m.registers = n.registers)
    (hstack : m.stack = n.stack) : Refuses n i e := by
  cases h with
  | ret hs =>
    rw [hstack] at hs
    exact .ret hs
  | call nnn hd =>
    rw [hstack] at hd
    exact .call nnn hd
  | draw hx hy hn =>
    rw [hregisters] at hn ⊢
    exact .draw hx hy hn
  | storeDecimal hx hn =>
    rw [hregisters] at hn ⊢
    exact .storeDecimal hx hn
  | storeRegisters hx hn =>
    rw [hregisters] at hn ⊢
    exact .storeRegisters hx hn
  | fetchRegisters hn =>
    rw [hregisters] at hn ⊢
    exact .fetchRegisters hn

end Instruction

namespace Machine

open Instruction

variable {m n : Machine} {o : Outcome Signal}

/-- **A cycle whose instruction does not look at timers or keys** ends in the same way on machines
with the same core, and with the same core again. -/
theorem Executes.of_core (h : Executes m o) (hcore : m.core = n.core)
    (hblind : ∀ w i, m.memory.readWord m.pc = .ok w → decode w = .ok i → ¬ i.Senses) :
    ∃ n', Executes n ⟨o.result, n', o.log⟩ ∧ o.machine.core = n'.core := by
  obtain ⟨timers, keypad, tone, rfl⟩ := exists_of_core hcore
  cases h with
  | noWord hlt => exact ⟨_, .noWord hlt, rfl⟩
  | unknown hw hd => exact ⟨_, .unknown hw hd, rfl⟩
  | refused hw hd hr => exact ⟨_, .refused hw hd (hr.congr rfl rfl), rfl⟩
  | @performed w i m' step signal log hw hd hp =>
    -- the machine that remembers the fetched word has the same core in both runs
    obtain ⟨n', hp', hsame⟩ := hp.of_core (hblind w i hw hd)
      (n := { m with timers, keypad, toneEnded := tone, opcode := w }) rfl
    refine ⟨_, .performed hw hd hp', ?_⟩
    exact congrArg (fun c => { c with pc := step.advance m.pc }) hsame

/-- What the host does between the cycles, other than loading, leaves the core alone. -/
theorem core_serve (m : Machine) {r : Request} (he : r.IsElementary) (hr : r ≠ .execute)
    (hload : ∀ program, r ≠ .load program) : (m.serve r).machine.core = m.core := by
  cases r with
  | load program => exact absurd rfl (hload program)
  | execute => exact absurd rfl hr
  | tick =>
    rw [serve_tick_machine]
    rfl
  | press key =>
    rw [serve_press_machine]
    rfl
  | release key =>
    rw [serve_release_machine]
    rfl
  | takeTone | setKeys => rfl
  | step | frame => exact he.elim

end Machine

end Chip8
