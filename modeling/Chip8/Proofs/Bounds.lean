import Chip8.Proofs.Calls

/-!
# Bounds

The program counter, the stack and the index register keep each other in bounds. A jump reaches at
most `0xFFF + 0xFF`, only a fetched address is put on the stack, and a return goes on behind such an
address.

* `Performs.bounded`: an instruction keeps the bounds.
* `bounded_history`: the bounds hold along every history.
-/

namespace Chip8

/-- The highest address of an instruction word. -/
abbrev lastWord : Nat := memorySize - instructionSize

/-- The highest address that the program counter reaches: the highest constant plus the highest
offset. -/
abbrev highestTarget : Nat := 0xFFF + 0xFF

namespace Machine

/-- The bounds of a machine at work. -/
structure Bounded (m : Machine) : Prop where
  index_lt : m.registers.index.toNat < memorySize
  depth_le : m.stack.depth ≤ stackDepth
  entries_le : ∀ a ∈ m.stack.entries, a.toNat ≤ lastWord
  pc_le : m.pc ≤ highestTarget

theorem bounded_boot (random : RandomSource) : (boot random).Bounded where
  index_lt := show 0 < memorySize by decide
  depth_le := Nat.zero_le _
  entries_le := by simp [boot, Stack.blank]
  pc_le := show programStart ≤ highestTarget by decide

/-- The fetched word has no bounds to keep. -/
theorem Bounded.remember {m : Machine} (h : m.Bounded) (w : Word) :
    ({ m with opcode := w } : Machine).Bounded :=
  ⟨h.index_lt, h.depth_le, h.entries_le, h.pc_le⟩

end Machine

@[simp]
theorem Registers.index_writeAll (r : Registers) (l : List (Nat × UInt8)) :
    (r.writeAll l).index = r.index := by
  induction l generalizing r with
  | nil => rfl
  | cons p l ih => exact ih _

namespace Instruction.Performs

variable {m m' : Machine} {i : Instruction} {step : Step} {signal : Signal} {log : List Record}

/-- The index register is left alone or set to twelve bits. -/
theorem index_lt (h : Performs m i m' step signal log)
    (hm : m.registers.index.toNat < memorySize) : m'.registers.index.toNat < memorySize := by
  cases h with
  | loadIndex | addIndex | loadGlyph =>
    rw [Registers.toNat_index_setIndex]
    exact Nat.mod_lt _ (by decide)
  | _ => simpa using hm

/-- An instruction goes to an address that is not too high. -/
theorem advance_le (h : Performs m i m' step signal log) (hi : i.Fits)
    (hs : ∀ a ∈ m.stack.entries, a.toNat ≤ lastWord) (hpc : m.pc ≤ lastWord) :
    step.advance m.pc ≤ highestTarget := by
  have hpc : m.pc ≤ 4094 := hpc
  have hskip (b : Bool) : (Step.skipIf b).advance m.pc ≤ 4350 := by
    rw [Step.advance_skipIf]
    show (if b then m.pc + 4 else m.pc + 2) ≤ 4350
    split <;> omega
  cases h with
  -- what was called is a word, so there is room for the step behind it
  | @ret a rest h =>
    have ha : a.toNat ≤ 4094 := hs a (h ▸ List.mem_cons_self)
    show a.toNat + 2 ≤ 4350
    omega
  | jump nnn | call nnn =>
    have hi : nnn < 4096 := hi
    show nnn ≤ 4350
    omega
  | jumpOffset nnn =>
    have hv := (m.registers.valueAt 0).toNat_lt
    have hi : nnn < 4096 := hi
    show (m.registers.valueAt 0).toNat + nnn ≤ 4350
    omega
  | skipIfConst | skipUnlessConst | skipIfEqual | skipUnlessEqual | skipIfPressed
  | skipUnlessPressed => exact hskip _
  | awaitNoKey =>
    show m.pc ≤ 4350
    omega
  | _ =>
    show m.pc + 2 ≤ 4350
    omega

/-- **An instruction keeps the bounds**, if it was fetched and its operands fit. -/
theorem bounded (h : Performs m i m' step signal log) (hi : i.Fits) (hm : m.Bounded)
    (hpc : m.pc ≤ lastWord) : ({ m' with pc := step.advance m.pc } : Machine).Bounded where
  index_lt := h.index_lt hm.index_lt
  depth_le := by
    cases h with
    | call nnn hd => exact hd
    | ret hs =>
      have := hm.depth_le
      simp only [Stack.depth, hs, List.length_cons] at this ⊢
      omega
    | _ => exact hm.depth_le
  entries_le := by
    rcases h.stack_cases with hs | ⟨nnn, -, hs⟩ | ⟨a, -, hs, -⟩
    · exact hs ▸ hm.entries_le
    · -- the new entry is the address that was just fetched
      intro b hb
      rcases List.mem_cons.1 (hs ▸ hb) with rfl | hb
      · exact Nat.le_trans (Nat.mod_le _ _) hpc
      · exact hm.entries_le b hb
    · exact fun b hb => hm.entries_le b (hs ▸ List.mem_cons_of_mem a hb)
  pc_le := h.advance_le hi hm.entries_le hpc

end Instruction.Performs

namespace Moment

variable {e : Moment}

open Machine

/-- An elementary request keeps the bounds. -/
theorem bounded_after (he : e.request.IsElementary) (hm : e.machine.Bounded) :
    e.after.Bounded := by
  by_cases hr : e.request = .execute
  · rw [after_of_execute hr]
    have hx := executes e.machine
    generalize execute.run e.machine = o at hx ⊢
    cases hx with
    | noWord => exact hm
    | unknown | refused => exact hm.remember _
    | performed hw hd hp =>
      -- the fetch has succeeded, so the program counter is at a word
      have hle : e.machine.pc + 2 ≤ 4096 := (Memory.readWord_eq_ok_iff.1 hw).1
      have hpc : e.machine.pc ≤ lastWord := show e.machine.pc ≤ 4094 by omega
      exact hp.bounded (Instruction.fits_of_decode hd) (hm.remember _) hpc
  · obtain ⟨memory, timers, keypad, tone, hafter⟩ := serve_of_ne_execute e.machine he hr
    rw [after, reply, hafter]
    exact ⟨hm.index_lt, hm.depth_le, hm.entries_le, hm.pc_le⟩

end Moment

namespace Machine

/-- **The bounds hold along every history**, and for the machine after the session. -/
theorem bounded_history (random : RandomSource) (session : List Request) :
    (∀ e ∈ (boot random).history session, e.machine.Bounded ∧ e.after.Bounded) ∧
      ((boot random).after session).Bounded :=
  Trail.invariant (fun _ _ he hm => Moment.bounded_after he hm) (trail_history _ session)
    (bounded_boot random)

end Machine

end Chip8
