import Chip8.Proofs.History

/-!
# Calls and returns

The stack grows by a call and shrinks by a return, and what lies below the top stays.

* `Moment.stack_cases`: how an elementary request moves the stack.
* `return_matches_call`: the return that undoes a call goes on behind it, with the stack that the
  call met.
-/

namespace Chip8

namespace Instruction.Performs

variable {m m' : Machine} {i : Instruction} {step : Step} {signal : Signal} {log : List Record}

/-- Only calls and returns move the stack. -/
theorem stack_cases (h : Performs m i m' step signal log) :
    m'.stack = m.stack ∨
    (∃ nnn, i = .call nnn ∧ m'.stack.entries = m.pc.toUInt16 :: m.stack.entries) ∨
    ∃ a, i = .ret ∧ m.stack.entries = a :: m'.stack.entries ∧
      step = .jump (a.toNat + instructionSize) := by
  cases h with
  | call nnn hd => exact .inr (.inl ⟨nnn, rfl, rfl⟩)
  | ret hs => exact .inr (.inr ⟨_, rfl, hs, rfl⟩)
  | _ => exact .inl rfl

end Instruction.Performs

/-- The instruction is executed at this moment, and succeeds. -/
def Moment.Performs (e : Moment) (i : Instruction) : Prop :=
  e.request = .execute ∧ ∃ w signal, e.machine.memory.readWord e.machine.pc = .ok w ∧
    Instruction.decode w = .ok i ∧ (Machine.execute.run e.machine).result = .ok signal

namespace Moment

variable {e : Moment} {i : Instruction}

open Machine

/-- **An elementary request** leaves the stack alone, puts one address on top or takes one off. Only
a cycle moves it. -/
theorem stack_cases (he : e.request.IsElementary) :
    e.after.stack = e.machine.stack ∨
    (e.request = .execute ∧ ∃ a, e.after.stack.entries = a :: e.machine.stack.entries) ∨
    e.request = .execute ∧ ∃ a, e.machine.stack.entries = a :: e.after.stack.entries := by
  by_cases hr : e.request = .execute
  · rw [after_of_execute hr]
    have hx := executes e.machine
    generalize execute.run e.machine = o at hx ⊢
    cases hx with
    | noWord | unknown | refused => exact .inl rfl
    | performed hw hd hp =>
      rcases hp.stack_cases with hs | ⟨nnn, -, hs⟩ | ⟨a, -, hs, -⟩
      · exact .inl hs
      · exact .inr (.inl ⟨hr, _, hs⟩)
      · exact .inr (.inr ⟨hr, _, hs⟩)
  · obtain ⟨memory, timers, keypad, tone, hm⟩ := serve_of_ne_execute e.machine he hr
    left
    rw [after, reply, hm]

/-- What lies at the bottom of the stack stays there while the stack is not lower than that. -/
theorem suffix_after {base : List UInt16} (he : e.request.IsElementary)
    (hdeep : e.request = .execute → base.length ≤ e.after.stack.depth)
    (h : base <:+ e.machine.stack.entries) : base <:+ e.after.stack.entries := by
  rcases stack_cases he with hs | ⟨-, a, hs⟩ | ⟨hr, a, hs⟩
  · rwa [hs]
  · rw [hs]
    exact List.suffix_cons_iff.2 (.inr h)
  · rw [hs] at h
    rcases List.suffix_cons_iff.1 h with heq | h
    · -- the whole stack was needed, so it may not get lower
      have hlen := hdeep hr
      rw [heq, List.length_cons, Stack.depth] at hlen
      omega
    · exact h

/-- The moment of an instruction that is performed, by its rule. -/
theorem performs_cases (h : e.Performs i) : ∃ w m' step signal log,
    e.machine.pc + instructionSize ≤ memorySize ∧
    Instruction.Performs { e.machine with opcode := w } i m' step signal log ∧
      e.after = { m' with pc := step.advance e.machine.pc } := by
  obtain ⟨hr, w, signal, hw, hd, hok⟩ := h
  obtain ⟨w', i', m', step, log, hw', hd', hp, hrun⟩ := performed_of_ok hok
  obtain rfl : w = w' := by simpa [hw] using hw'
  obtain rfl : i = i' := by simpa [hd] using hd'
  refine ⟨w, m', step, signal, log, (Memory.readWord_eq_ok_iff.1 hw).1, hp, ?_⟩
  rw [after_of_execute hr, hrun]

/-- A rule for the fetched instruction is a moment at which it is performed. -/
theorem performs_of_rule {m : Machine} {w : Word} {i : Instruction} {m' : Machine} {step : Step}
    {signal : Signal} {log : List Record} (hw : m.memory.readWord m.pc = .ok w)
    (hd : Instruction.decode w = .ok i)
    (hp : Instruction.Performs { m with opcode := w } i m' step signal log) :
    Moment.Performs ⟨m, .execute⟩ i ∧
      (m.serve .execute).machine = { m' with pc := step.advance m.pc } := by
  have hrun := run_of_executes (.performed hw hd hp)
  refine ⟨⟨rfl, w, signal, hw, hd, by rw [hrun]⟩, ?_⟩
  show (execute.run m).machine = _
  rw [hrun]

theorem after_of_performs_call {nnn : Nat} (h : e.Performs (.call nnn)) :
    e.after.stack.entries = e.machine.pc.toUInt16 :: e.machine.stack.entries ∧
      e.machine.pc.toUInt16.toNat = e.machine.pc := by
  obtain ⟨w, m', step, signal, log, hpc, hp, hafter⟩ := performs_cases h
  cases hp with
  | call nnn hd =>
    rw [hafter]
    exact ⟨rfl, Memory.toNat_toUInt16_of_le hpc⟩

theorem after_of_performs_ret (h : e.Performs .ret) : ∃ a,
    e.machine.stack.entries = a :: e.after.stack.entries ∧
      e.after.pc = a.toNat + instructionSize := by
  obtain ⟨w, m', step, signal, log, hpc, hp, hafter⟩ := performs_cases h
  cases hp with
  | ret hs =>
    rw [hafter]
    exact ⟨_, hs, rfl⟩

end Moment

open Machine in
/-- **Calls and returns match.** In the history of any session, let a call succeed, let the stack
stay above the height that the call met until a return brings it back there. Then the return leaves
the stack that the call met and goes on behind the call. -/
theorem return_matches_call {random : RandomSource} {session : List Request}
    {before between later : List Moment} {call ret : Moment} {nnn : Nat}
    (hhistory : (boot random).history session = before ++ call :: (between ++ ret :: later))
    (hcall : call.Performs (.call nnn))
    (hdeep : ∀ e ∈ between, e.request = .execute →
      call.machine.stack.depth + 1 ≤ e.after.stack.depth)
    (hret : ret.Performs .ret) (hback : ret.after.stack.depth = call.machine.stack.depth) :
    ret.after.stack = call.machine.stack ∧
      ret.after.pc = call.machine.pc + instructionSize := by
  have htrail := trail_history (boot random) session
  rw [hhistory, Trail.append_iff] at htrail
  obtain ⟨m₁, -, rfl, -, htrail⟩ := htrail
  obtain ⟨m₂, hbetween, rfl, -, -⟩ := Trail.append_iff.1 htrail
  obtain ⟨hpush, hpc⟩ := Moment.after_of_performs_call hcall
  obtain ⟨a, hpop, hjump⟩ := Moment.after_of_performs_ret hret
  -- the address of the call and all below it stay at the bottom of the stack
  have hbase : call.after.stack.entries <:+ ret.machine.stack.entries := by
    refine (Trail.invariant (P := fun m => call.after.stack.entries <:+ m.stack.entries)
      (fun e he hel hs => Moment.suffix_after hel (fun hr => ?_) hs) hbetween
      List.suffix_rfl).2
    rw [hpush]
    exact hdeep e he hr
  have hlen : call.after.stack.entries.length = ret.machine.stack.entries.length := by
    rw [hpush, hpop, List.length_cons, List.length_cons]
    exact congrArg (· + 1) hback.symm
  have heq := hbase.eq_of_length hlen
  rw [hpush, hpop, List.cons.injEq] at heq
  obtain ⟨rfl, hrest⟩ := heq
  refine ⟨?_, by rw [hjump, hpc]⟩
  show (⟨_⟩ : Stack) = ⟨_⟩
  rw [hrest]

/-- A call inside a call. -/
theorem return_matches_nested_call :
    let m := (Machine.boot (.repeating #[])).after
      [.load [0x22, 0x04, 0x12, 0x02, 0x22, 0x08, 0x00, 0xEE, 0x00, 0xEE]]
    (m.after [.execute, .execute]).stack.depth = 2 ∧
      (m.after [.execute, .execute, .execute, .execute]).stack = m.stack ∧
      (m.after [.execute, .execute, .execute, .execute]).pc = m.pc + instructionSize := by
  let boot := Machine.boot (.repeating #[])
  let program : List UInt8 := [0x22, 0x04, 0x12, 0x02, 0x22, 0x08, 0x00, 0xEE, 0x00, 0xEE]
  let memory := boot.memory.poke programStart program
  have word {k : Nat} {high low : UInt8} (hk : k < 9) (hh : program[k]? = some high)
      (hl : program[k + 1]? = some low) :
      memory.readWord (programStart + k) = .ok (Word.ofBytes high low) :=
    boot.memory.readWord_poke (show 0x200 + k + 2 ≤ 4096 by omega) hh hl
  have h0 := word (k := 0) (by decide) rfl rfl
  have h4 := word (k := 4) (by decide) rfl rfl
  have h6 := word (k := 6) (by decide) rfl rfl
  have h8 := word (k := 8) (by decide) rfl rfl
  have hload : (boot.serve (.load program)).machine = { boot with memory } := by
    show ((Machine.load program).run boot).machine = _
    rw [Machine.run_load_of_ok (Memory.load_eq_ok_iff.2 ⟨by decide, rfl⟩)]
  clear_value memory
  -- the machines that the two calls and the two returns meet
  let m : Machine := { boot with memory }
  have hload : (boot.serve (.load program)).machine = m := hload
  obtain ⟨hcall, hm₁⟩ := Moment.performs_of_rule (m := m) (i := .call 0x204) h0 rfl
    (.call 0x204 (show 0 < 16 by decide))
  let m₁ : Machine := { m with opcode := 0x2204, stack := ⟨[0x200]⟩, pc := 0x204 }
  have hm₁ : (m.serve .execute).machine = m₁ := hm₁
  obtain ⟨-, hm₂⟩ := Moment.performs_of_rule (m := m₁) (i := .call 0x208) h4 rfl
    (.call 0x208 (show 1 < 16 by decide))
  let m₂ : Machine := { m with opcode := 0x2208, stack := ⟨[0x204, 0x200]⟩, pc := 0x208 }
  have hm₂ : (m₁.serve .execute).machine = m₂ := hm₂
  obtain ⟨-, hm₃⟩ := Moment.performs_of_rule (m := m₂) (i := .ret) h8 rfl (.ret rfl)
  let m₃ : Machine := { m with opcode := 0x00EE, stack := ⟨[0x200]⟩, pc := 0x206 }
  have hm₃ : (m₂.serve .execute).machine = m₃ := hm₃
  obtain ⟨hret, hm₄⟩ := Moment.performs_of_rule (m := m₃) (i := .ret) h6 rfl (.ret rfl)
  let m₄ : Machine := { m with opcode := 0x00EE, pc := 0x202 }
  have hm₄ : (m₃.serve .execute).machine = m₄ := hm₄
  have hhistory : boot.history [.load program, .execute, .execute, .execute, .execute] =
      [⟨boot, .load program⟩] ++ ⟨m, .execute⟩ ::
        ([⟨m₁, .execute⟩, ⟨m₂, .execute⟩] ++ [⟨m₃, .execute⟩]) := by
    simp only [Machine.history, hload, hm₁, hm₂, hm₃]
    rfl
  have hdeep : ∀ e ∈ [(⟨m₁, .execute⟩ : Moment), ⟨m₂, .execute⟩], e.request = .execute →
      m.stack.depth + 1 ≤ e.after.stack.depth := by
    intro e he _
    simp only [List.mem_cons, List.not_mem_nil, or_false] at he
    rcases he with rfl | rfl
    · rw [Moment.after, Moment.reply, hm₂]
      exact show 0 + 1 ≤ 2 by decide
    · rw [Moment.after, Moment.reply, hm₃]
      exact show 0 + 1 ≤ 1 by decide
  have hmatch := return_matches_call hhistory hcall hdeep hret (congrArg (·.stack.depth) hm₄)
  show ((boot.serve (.load program)).machine.after [.execute, .execute]).stack.depth = 2 ∧
    ((boot.serve (.load program)).machine.after _).stack =
      (boot.serve (.load program)).machine.stack ∧
    ((boot.serve (.load program)).machine.after _).pc = _ + 2
  simp only [Machine.after, hload, hm₁, hm₂, hm₃]
  exact ⟨rfl, hmatch⟩

end Chip8
