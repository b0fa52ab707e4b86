import Chip8.Machine.Cycle

/-!
# The rules of the instructions

What an instruction does, as a relation: `Performs` has one rule for each way to succeed and
`Refuses` one for each way to fail. Proofs about all instructions go by the rules of the two.

* `run_of_performs`, `run_of_refuses`: an instruction does what the rules say.
* `performs_or_refuses`: an instruction whose registers exist has a rule.
* `effect_error`: a failed instruction has changed nothing.
-/

namespace Chip8

/-- The `len` bytes from `address` on. -/
def Memory.bytesFrom (m : Memory) (address len : Nat) : List UInt8 :=
  (List.range len).map fun i => m.byteAt (address + i)

namespace Memory

@[simp]
theorem length_bytesFrom (m : Memory) (a len : Nat) : (m.bytesFrom a len).length = len := by
  simp [bytesFrom]

theorem read_of_le (m : Memory) {a len : Nat} (h : a + len ≤ memorySize) :
    m.read a len = .ok (m.bytesFrom a len) :=
  read_eq_ok_iff.2 ⟨h, rfl⟩

theorem read_of_lt (m : Memory) {a len : Nat} (h : memorySize < a + len) :
    m.read a len = .error (.outOfBounds a len) := by
  rw [read, if_neg (Nat.not_le_of_lt h)]

theorem write_of_le (m : Memory) {a : Nat} (bs : List UInt8) (h : a + bs.length ≤ memorySize) :
    m.write a bs = .ok (m.poke a bs) :=
  write_eq_ok_iff.2 ⟨h, rfl⟩

theorem write_of_lt (m : Memory) {a : Nat} (bs : List UInt8) (h : memorySize < a + bs.length) :
    m.write a bs = .error (.outOfBounds a bs.length) := by
  rw [write, if_neg (Nat.not_le_of_lt h)]

end Memory

/-- The values of the registers up to `VX`. -/
def Registers.upTo (r : Registers) (x : Nat) : List UInt8 :=
  (List.range (x + 1)).map r.valueAt

@[simp]
theorem Registers.length_upTo (r : Registers) (x : Nat) : (r.upTo x).length = x + 1 := by
  simp [upTo]

/-- Writes registers one after the other. -/
def Registers.writeAll (r : Registers) (l : List (Nat × UInt8)) : Registers :=
  l.foldl (fun r p => r.write p.1 p.2) r

/-- Decimal digits of a byte: hundreds, tens and ones. -/
def decimalDigits (v : UInt8) : List UInt8 :=
  [v / 100, v / 10 % 10, v % 10]

namespace Instruction

open Routine

/-- The general registers that an instruction names. -/
def registers : Instruction → List Nat
  | skipIfConst x _ | skipUnlessConst x _ | load x _ | add x _ | random x _ => [x]
  | skipIfEqual x y | skipUnlessEqual x y | alu _ x y | draw x y _ => [x, y]
  | skipIfPressed x | skipUnlessPressed x | readDelay x | awaitKey x | setDelay x | setSound x
  | addIndex x | loadGlyph x | storeDecimal x | storeRegisters x | fetchRegisters x => [x]
  | clear | ret | jump _ | call _ | loadIndex _ | jumpOffset _ => []

/-- Every register that the instruction names exists. -/
def NamesRegisters (i : Instruction) : Prop :=
  ∀ x ∈ i.registers, x < registerCount

instance : DecidablePred NamesRegisters := fun i =>
  inferInstanceAs (Decidable (∀ x ∈ i.registers, x < registerCount))

/-- **An instruction succeeds**: it leaves the second machine, goes where the step says, asks the
host for the signal and notes down the records. -/
inductive Performs (m : Machine) :
    Instruction → Machine → Step → Signal → List Record → Prop
  | clear : Performs m clear { m with screen := .blank } .next .redraw []
  | ret {a : UInt16} {rest : List UInt16} (h : m.stack.entries = a :: rest) :
    Performs m ret { m with stack := ⟨rest⟩ } (.jump (a.toNat + instructionSize)) .nothing
      [.returned a.toNat]
  | jump (nnn : Nat) : Performs m (jump nnn) m (.jump nnn) .nothing []
  | call (nnn : Nat) (h : m.stack.depth < stackDepth) :
    Performs m (call nnn) { m with stack := ⟨m.pc.toUInt16 :: m.stack.entries⟩ } (.jump nnn)
      .nothing [.called nnn m.pc]
  | skipIfConst {x : Nat} (kk : UInt8) (hx : x < registerCount) :
    Performs m (skipIfConst x kk) m (.skipIf (m.registers.valueAt x == kk)) .nothing []
  | skipUnlessConst {x : Nat} (kk : UInt8) (hx : x < registerCount) :
    Performs m (skipUnlessConst x kk) m (.skipIf (m.registers.valueAt x != kk)) .nothing []
  | skipIfEqual {x y : Nat} (hx : x < registerCount) (hy : y < registerCount) :
    Performs m (skipIfEqual x y) m
      (.skipIf (m.registers.valueAt x == m.registers.valueAt y)) .nothing []
  | load {x : Nat} (kk : UInt8) (hx : x < registerCount) :
    Performs m (load x kk) { m with registers := m.registers.write x kk } .next .nothing []
  | add {x : Nat} (kk : UInt8) (hx : x < registerCount) :
    Performs m (add x kk)
      { m with registers := m.registers.write x (m.registers.valueAt x + kk) } .next .nothing []
  | alu (op : Alu) {x y : Nat} (hx : x < registerCount) (hy : y < registerCount) :
    Performs m (alu op x y)
      { m with
        registers := m.registers.writeAll
          (op.writes x (m.registers.valueAt x) (m.registers.valueAt y)) } .next .nothing []
  | skipUnlessEqual {x y : Nat} (hx : x < registerCount) (hy : y < registerCount) :
    Performs m (skipUnlessEqual x y) m
      (.skipIf (m.registers.valueAt x != m.registers.valueAt y)) .nothing []
  | loadIndex (nnn : Nat) :
    Performs m (loadIndex nnn) { m with registers := m.registers.setIndex nnn.toUInt16 } .next
      .nothing []
  | jumpOffset (nnn : Nat) :
    Performs m (jumpOffset nnn) m (.jump ((m.registers.valueAt 0).toNat + nnn)) .nothing []
  | random {x : Nat} (kk : UInt8) (hx : x < registerCount) :
    Performs m (random x kk)
      { m with
        random := m.random.advance
        registers := m.registers.write x (kk &&& m.random.peek) } .next .nothing []
  | draw {x y n : Nat} (hx : x < registerCount) (hy : y < registerCount)
    (h : m.registers.index.toNat + n ≤ memorySize) {screen : Screen} {hit : Bool}
    (hdraw : m.screen.drawSprite (m.registers.valueAt x).toNat (m.registers.valueAt y).toNat
      (m.memory.bytesFrom m.registers.index.toNat n) = (screen, hit)) :
    Performs m (draw x y n) { m with screen, registers := m.registers.setFlag hit } .next .redraw
      []
  | skipIfPressed {x : Nat} (hx : x < registerCount) :
    Performs m (skipIfPressed x) m
      (.skipIf (m.keypad.isPressed (m.registers.valueAt x).toNat)) .nothing []
  | skipUnlessPressed {x : Nat} (hx : x < registerCount) :
    Performs m (skipUnlessPressed x) m
      (.skipIf (!m.keypad.isPressed (m.registers.valueAt x).toNat)) .nothing []
  | readDelay {x : Nat} (hx : x < registerCount) :
    Performs m (readDelay x) { m with registers := m.registers.write x m.timers.delay } .next
      .nothing []
  | awaitNoKey (x : Nat) (h : m.keypad.lowestPressed = none) :
    Performs m (awaitKey x) m .stay .wait []
  | awaitKey {x key : Nat} (hx : x < registerCount) (h : m.keypad.lowestPressed = some key) :
    Performs m (awaitKey x) { m with registers := m.registers.write x key.toUInt8 } .next .nothing
      [.keyTaken key]
  | setDelay {x : Nat} (hx : x < registerCount) :
    Performs m (setDelay x)
      { m with timers := { m.timers with delay := m.registers.valueAt x } } .next .nothing []
  | setSound {x : Nat} (hx : x < registerCount) :
    Performs m (setSound x)
      { m with timers := { m.timers with sound := m.registers.valueAt x } } .next .nothing []
  | addIndex {x : Nat} (hx : x < registerCount) :
    Performs m (addIndex x)
      { m with
        registers := m.registers.setIndex
          (m.registers.index + (m.registers.valueAt x).toUInt16) } .next .nothing []
  | loadGlyph {x : Nat} (hx : x < registerCount) :
    Performs m (loadGlyph x)
      { m with
        registers := m.registers.setIndex (glyphAddress (m.registers.valueAt x)).toUInt16 }
      .next .nothing []
  | storeDecimal {x : Nat} (hx : x < registerCount)
    (h : m.registers.index.toNat + 3 ≤ memorySize) :
    Performs m (storeDecimal x)
      { m with
        memory := m.memory.poke m.registers.index.toNat
          (decimalDigits (m.registers.valueAt x)) } .next .nothing []
  | storeRegisters {x : Nat} (hx : x < registerCount)
    (h : m.registers.index.toNat + (x + 1) ≤ memorySize) :
    Performs m (storeRegisters x)
      { m with memory := m.memory.poke m.registers.index.toNat (m.registers.upTo x) } .next
      .nothing []
  | fetchRegisters {x : Nat} (hx : x < registerCount)
    (h : m.registers.index.toNat + (x + 1) ≤ memorySize) :
    Performs m (fetchRegisters x)
      { m with
        registers := m.registers.fill (m.memory.bytesFrom m.registers.index.toNat (x + 1)) }
      .next .nothing []

/-- **An instruction fails**, with this fault. -/
inductive Refuses (m : Machine) : Instruction → Fault → Prop
  | ret (h : m.stack.entries = []) : Refuses m ret (.stack .empty)
  | call (nnn : Nat) (h : stackDepth ≤ m.stack.depth) : Refuses m (call nnn) (.stack .full)
  | draw {x y n : Nat} (hx : x < registerCount) (hy : y < registerCount)
    (h : memorySize < m.registers.index.toNat + n) :
    Refuses m (draw x y n) (.memory (.outOfBounds m.registers.index.toNat n))
  | storeDecimal {x : Nat} (hx : x < registerCount)
    (h : memorySize < m.registers.index.toNat + 3) :
    Refuses m (storeDecimal x) (.memory (.outOfBounds m.registers.index.toNat 3))
  | storeRegisters {x : Nat} (hx : x < registerCount)
    (h : memorySize < m.registers.index.toNat + (x + 1)) :
    Refuses m (storeRegisters x) (.memory (.outOfBounds m.registers.index.toNat (x + 1)))
  | fetchRegisters {x : Nat} (h : memorySize < m.registers.index.toNat + (x + 1)) :
    Refuses m (fetchRegisters x) (.memory (.outOfBounds m.registers.index.toNat (x + 1)))

variable {m m' : Machine} {i : Instruction} {step : Step} {signal : Signal} {log : List Record}
  {e : Fault}

/-- Writes to registers that exist, one after the other. -/
theorem run_setRegisters {l : List (Nat × UInt8)} (h : ∀ p ∈ l, p.1 < registerCount)
    (m : Machine) :
    (forM l fun p => setRegister p.1 p.2).run m =
      ⟨.ok (), { m with registers := m.registers.writeAll l }, []⟩ := by
  induction l generalizing m with
  | nil => rfl
  | cons p l ih =>
    have hp : p.1 < registerCount := h p List.mem_cons_self
    have hl : ∀ q ∈ l, q.1 < registerCount := fun q hq => h q (List.mem_cons_of_mem p hq)
    simp [run_setRegister_of_lt hp, ih hl, Registers.writeAll]

/-- An operation writes to its target and to `VF`, and to no other register. -/
theorem mem_writes {op : Alu} {x : Nat} {vx vy : UInt8} {p : Nat × UInt8}
    (h : p ∈ op.writes x vx vy) : p.1 = x ∨ p.1 = flagRegister := by
  cases op <;> simp only [Alu.writes, Alu.flag?, Alu.flagFirst] at h <;> grind

theorem lt_of_mem_writes {op : Alu} {x : Nat} {vx vy : UInt8} (hx : x < registerCount) :
    ∀ p ∈ op.writes x vx vy, p.1 < registerCount := by
  intro p hp
  rcases mem_writes hp with h | h
  · rwa [h]
  · rw [h]
    decide

/-- An instruction does what its rule says. -/
theorem run_of_performs (h : Performs m i m' step signal log) :
    i.effect.run m = ⟨.ok (step, signal), m', log⟩ := by
  cases h with
  | ret h => simp [effect, Stack.pop, h, go]
  | call nnn h => simp [effect, Stack.push, h, go]
  | alu op hx hy =>
    simp [effect, run_register_of_lt hx, run_register_of_lt hy,
      run_setRegisters (lt_of_mem_writes hx), go]
  | jumpOffset nnn => simp [effect, run_register_of_lt (show 0 < registerCount by decide), go]
  | skipIfEqual hx hy => simp [effect, run_register_of_lt hx, run_register_of_lt hy, go]
  | skipUnlessEqual hx hy => simp [effect, run_register_of_lt hx, run_register_of_lt hy, go]
  | draw hx hy h hdraw =>
    simp [effect, run_register_of_lt hx, run_register_of_lt hy, Memory.read_of_le _ h, hdraw]
  | awaitNoKey x h => simp [effect, h]
  | awaitKey hx h => simp [effect, h, run_setRegister_of_lt hx, go]
  -- the blocks that are stored and fetched are inside memory, as the rules ask
  | @storeDecimal x hx h =>
    have hw := m.memory.write_of_le (decimalDigits (m.registers.valueAt x)) h
    rw [decimalDigits] at hw
    simp [effect, run_register_of_lt hx, hw, go, decimalDigits]
  | @storeRegisters x hx h =>
    have hf : m.registers.first? (x + 1) = _ := if_pos (Nat.succ_le_of_lt hx)
    have hw := m.memory.write_of_le (m.registers.upTo x) (by simpa using h)
    rw [Registers.upTo] at hw
    simp [effect, hf, hw, go, Registers.upTo]
  | @fetchRegisters x hx h =>
    have hf : m.registers.fill? (m.memory.bytesFrom m.registers.index.toNat (x + 1)) = _ :=
      if_pos (by simpa using Nat.succ_le_of_lt hx)
    simp [effect, Memory.read_of_le _ h, hf, putRegisters, go]
  | _ => simp [effect, go, *, run_register_of_lt, run_setRegister_of_lt]

/-- An instruction that is refused ends with the fault and leaves everything as it was. -/
theorem run_of_refuses (h : Refuses m i e) : i.effect.run m = ⟨.error e, m, []⟩ := by
  cases h with
  | ret h => simp [effect, Stack.pop, h]
  | call nnn h => simp [effect, Stack.push, Nat.not_lt_of_le h]
  | draw hx hy h =>
    simp [effect, run_register_of_lt hx, run_register_of_lt hy, Memory.read_of_lt _ h]
  | @storeDecimal x hx h =>
    have hw := m.memory.write_of_lt (decimalDigits (m.registers.valueAt x)) h
    rw [decimalDigits] at hw
    simp [effect, run_register_of_lt hx, hw]
  | @storeRegisters x hx h =>
    have hf : m.registers.first? (x + 1) = _ := if_pos (Nat.succ_le_of_lt hx)
    have hw := m.memory.write_of_lt (m.registers.upTo x) (by simpa using h)
    rw [Registers.upTo] at hw
    simp [effect, hf, hw]
  | fetchRegisters h => simp [effect, Memory.read_of_lt _ h]

/-- **An instruction whose registers exist** succeeds or fails by one of the rules. -/
theorem performs_or_refuses (m : Machine) (h : i.NamesRegisters) :
    (∃ m' step signal log, Performs m i m' step signal log) ∨ ∃ e, Refuses m i e := by
  have h₁ {x : Nat} {l : List Nat} (hi : i.registers = x :: l) : x < registerCount :=
    h x (hi ▸ List.mem_cons_self)
  have h₂ {x y : Nat} {l : List Nat} (hi : i.registers = x :: y :: l) : y < registerCount :=
    h y (hi ▸ List.mem_cons_of_mem x List.mem_cons_self)
  -- only the stack, the keys and the ends of memory decide between success and failure
  cases i with
  | clear => exact .inl ⟨_, _, _, _, .clear⟩
  | ret =>
    rcases hs : m.stack.entries with _ | ⟨a, rest⟩
    · exact .inr ⟨_, .ret hs⟩
    · exact .inl ⟨_, _, _, _, .ret hs⟩
  | jump nnn => exact .inl ⟨_, _, _, _, .jump nnn⟩
  | call nnn =>
    rcases Nat.lt_or_ge m.stack.depth stackDepth with hd | hd
    · exact .inl ⟨_, _, _, _, .call nnn hd⟩
    · exact .inr ⟨_, .call nnn hd⟩
  | skipIfConst x kk => exact .inl ⟨_, _, _, _, .skipIfConst kk (h₁ rfl)⟩
  | skipUnlessConst x kk => exact .inl ⟨_, _, _, _, .skipUnlessConst kk (h₁ rfl)⟩
  | skipIfEqual x y => exact .inl ⟨_, _, _, _, .skipIfEqual (h₁ rfl) (h₂ rfl)⟩
  | load x kk => exact .inl ⟨_, _, _, _, .load kk (h₁ rfl)⟩
  | add x kk => exact .inl ⟨_, _, _, _, .add kk (h₁ rfl)⟩
  | alu op x y => exact .inl ⟨_, _, _, _, .alu op (h₁ rfl) (h₂ rfl)⟩
  | skipUnlessEqual x y => exact .inl ⟨_, _, _, _, .skipUnlessEqual (h₁ rfl) (h₂ rfl)⟩
  | loadIndex nnn => exact .inl ⟨_, _, _, _, .loadIndex nnn⟩
  | jumpOffset nnn => exact .inl ⟨_, _, _, _, .jumpOffset nnn⟩
  | random x kk => exact .inl ⟨_, _, _, _, .random kk (h₁ rfl)⟩
  | draw x y n =>
    rcases Nat.lt_or_ge memorySize (m.registers.index.toNat + n) with hn | hn
    · exact .inr ⟨_, .draw (h₁ rfl) (h₂ rfl) hn⟩
    · exact .inl ⟨_, _, _, _, .draw (h₁ rfl) (h₂ rfl) hn rfl⟩
  | skipIfPressed x => exact .inl ⟨_, _, _, _, .skipIfPressed (h₁ rfl)⟩
  | skipUnlessPressed x => exact .inl ⟨_, _, _, _, .skipUnlessPressed (h₁ rfl)⟩
  | readDelay x => exact .inl ⟨_, _, _, _, .readDelay (h₁ rfl)⟩
  | awaitKey x =>
    rcases hk : m.keypad.lowestPressed with _ | key
    · exact .inl ⟨_, _, _, _, .awaitNoKey x hk⟩
    · exact .inl ⟨_, _, _, _, .awaitKey (h₁ rfl) hk⟩
  | setDelay x => exact .inl ⟨_, _, _, _, .setDelay (h₁ rfl)⟩
  | setSound x => exact .inl ⟨_, _, _, _, .setSound (h₁ rfl)⟩
  | addIndex x => exact .inl ⟨_, _, _, _, .addIndex (h₁ rfl)⟩
  | loadGlyph x => exact .inl ⟨_, _, _, _, .loadGlyph (h₁ rfl)⟩
  | storeDecimal x =>
    rcases Nat.lt_or_ge memorySize (m.registers.index.toNat + 3) with hn | hn
    · exact .inr ⟨_, .storeDecimal (h₁ rfl) hn⟩
    · exact .inl ⟨_, _, _, _, .storeDecimal (h₁ rfl) hn⟩
  | storeRegisters x =>
    rcases Nat.lt_or_ge memorySize (m.registers.index.toNat + (x + 1)) with hn | hn
    · exact .inr ⟨_, .storeRegisters (h₁ rfl) hn⟩
    · exact .inl ⟨_, _, _, _, .storeRegisters (h₁ rfl) hn⟩
  | fetchRegisters x =>
    rcases Nat.lt_or_ge memorySize (m.registers.index.toNat + (x + 1)) with hn | hn
    · exact .inr ⟨_, .fetchRegisters hn⟩
    · exact .inl ⟨_, _, _, _, .fetchRegisters (h₁ rfl) hn⟩

/-- An instruction that fails has a rule for it. -/
theorem refuses_of_error (h : i.NamesRegisters) (he : (i.effect.run m).result = .error e) :
    Refuses m i e := by
  rcases performs_or_refuses m h with ⟨m', step, signal, log, hp⟩ | ⟨e', hr⟩
  · rw [run_of_performs hp] at he
    cases he
  · rw [run_of_refuses hr] at he
    cases he
    exact hr

/-- **A failed instruction has changed nothing** and noted down nothing. -/
theorem effect_error (h : i.NamesRegisters) (he : (i.effect.run m).result = .error e) :
    i.effect.run m = ⟨.error e, m, []⟩ :=
  run_of_refuses (refuses_of_error h he)

end Instruction

end Chip8
