import Chip8.Proofs.Bounds
import Chip8.Proofs.InPlace

/-!
# Strict instructions

The instructions once more, in operations with limits. Where an instruction would use an entry that
a table does not have, copy between parts of different lengths, or add or multiply beyond 64 bits,
its strict form breaks off and has no outcome at all.

* `Strict.effect_of_performs`, `Strict.effect_of_refuses`: the strict effect of an instruction, by
  its rule.
* `Strict.run_perform`: a strict instruction does what the instruction does.
-/

namespace Chip8

/-- The program counter after a step. -/
def Step.advance? : Step → Nat → Option Nat
  | stay, pc => some pc
  | next, pc => sum? pc instructionSize
  | skip, pc => sum? pc (2 * instructionSize)
  | jump address, _ => some address

theorem Step.advance?_eq {pc : Nat} (h : pc ≤ highestTarget) (step : Step) :
    step.advance? pc = some (step.advance pc) := by
  have hpc : pc ≤ 4350 := h
  cases step with
  | stay | jump => rfl
  | next => exact sum?_of_lt (show pc + 2 < 2 ^ 64 by omega)
  | skip => exact sum?_of_lt (show pc + 4 < 2 ^ 64 by omega)

/-- The number of registers up to one that exists. -/
theorem sum?_one_of_lt {x : Nat} (hx : x < registerCount) : sum? x 1 = some (x + 1) :=
  sum?_of_lt (Nat.lt_of_le_of_lt hx (by decide))

/-- Goes on with the result, if there is one, unless that breaks off. -/
def Outcome.andThen? {α β : Type} (o : Outcome α) (f : α → Machine → Option (Outcome β)) :
    Option (Outcome β) :=
  match o.result with
  | .error e => some ⟨.error e, o.machine, o.log⟩
  | .ok a => (f a o.machine).map fun p => ⟨p.result, p.machine, o.log ++ p.log⟩

namespace Outcome

variable {α β : Type}

@[simp]
theorem andThen?_ok (a : α) (m : Machine) (l : List Record) (f : α → Machine → Option (Outcome β)) :
    (⟨.ok a, m, l⟩ : Outcome α).andThen? f =
      (f a m).map fun p => ⟨p.result, p.machine, l ++ p.log⟩ :=
  rfl

@[simp]
theorem andThen?_error (e : Fault) (m : Machine) (l : List Record)
    (f : α → Machine → Option (Outcome β)) :
    (⟨.error e, m, l⟩ : Outcome α).andThen? f = some ⟨.error e, m, l⟩ :=
  rfl

/-- A continuation that does not break off. -/
theorem andThen?_eq {o : Outcome α} {f : α → Machine → Option (Outcome β)}
    {g : α → Machine → Outcome β}
    (h : ∀ a, o.result = .ok a → f a o.machine = some (g a o.machine)) :
    o.andThen? f = some (o.andThen g) := by
  obtain ⟨e | a, m, l⟩ := o
  · rfl
  · rw [andThen?_ok, h a rfl]
    rfl

end Outcome

/-- A computation on the machine that breaks off, with no outcome, past a limit. -/
def Strict (α : Type) : Type :=
  Machine → Option (Outcome α)

namespace Strict

/-- Runs a strict routine on a machine. -/
def run {α : Type} (a : Strict α) (m : Machine) : Option (Outcome α) :=
  a m

instance : Monad Strict where
  pure a := fun m => some ⟨.ok a, m, []⟩
  bind a f := fun m => (a m).bind fun o => o.andThen? f

/-- A routine that meets no limits. -/
instance : MonadLift Routine Strict where
  monadLift a := fun m => some (a.run m)

/-- The value of an operation that keeps its limit. -/
def inLimit {α : Type} (value : Option α) : Strict α := fun m =>
  value.map fun a => ⟨.ok a, m, []⟩

/-- A computation in place on the memory of the machine. -/
def onMemory {α : Type} (a : Memory.InPlace α) : Strict α := fun m =>
  (a.run m.memory).map fun p => ⟨p.1.mapError .memory, { m with memory := p.2 }, []⟩

open Routine (current update note ofExcept setIndex)
open Instruction (go)

/-- The value of a general register. -/
def register (x : Nat) : Strict UInt8 := do
  let m ← current
  inLimit m.registers.values[x]?

/-- Sets a general register. -/
def setRegister (x : Nat) (value : UInt8) : Strict Unit := do
  let m ← current
  let values ← inLimit (setAt? m.registers.values x value)
  update fun m => { m with registers := { m.registers with values } }

/-- The effect of an instruction, without its step. -/
def effect : Instruction → Strict (Step × Signal)
  | .clear => Instruction.clear.effect
  | .ret => do
    let m ← current
    let (address, rest) ← ofExcept .stack m.stack.pop
    update fun m => { m with stack := rest }
    note (.returned address.toNat)
    let behind ← inLimit (sum? address.toNat instructionSize)
    go (.jump behind)
  | .jump nnn => (Instruction.jump nnn).effect
  | .call nnn => (Instruction.call nnn).effect
  | .skipIfConst x kk => do
    let vx ← register x
    go (.skipIf (vx == kk))
  | .skipUnlessConst x kk => do
    let vx ← register x
    go (.skipIf (vx != kk))
  | .skipIfEqual x y => do
    let vx ← register x
    let vy ← register y
    go (.skipIf (vx == vy))
  | .load x kk => do
    setRegister x kk
    go .next
  | .add x kk => do
    let vx ← register x
    setRegister x (vx + kk)
    go .next
  | .alu op x y => do
    let vx ← register x
    let vy ← register y
    (op.writes x vx vy).forM fun (r, value) => setRegister r value
    go .next
  | .skipUnlessEqual x y => do
    let vx ← register x
    let vy ← register y
    go (.skipIf (vx != vy))
  | .loadIndex nnn => (Instruction.loadIndex nnn).effect
  | .jumpOffset nnn => do
    let v0 ← register 0
    let target ← inLimit (sum? v0.toNat nnn)
    go (.jump target)
  | .random x kk => do
    let m ← current
    update fun m => { m with random := m.random.advance }
    setRegister x (kk &&& m.random.peek)
    go .next
  | .draw x y n => do
    let vx ← register x
    let vy ← register y
    let m ← current
    let sprite ← onMemory (.read m.registers.index.toNat n)
    let (screen, hit) ← inLimit (m.screen.drawSprite? vx.toNat vy.toNat sprite)
    update fun m => { m with screen }
    setRegister flagRegister hit.toUInt8
    pure (.next, .redraw)
  | .skipIfPressed x => do
    let vx ← register x
    let m ← current
    go (.skipIf (m.keypad.isPressed vx.toNat))
  | .skipUnlessPressed x => do
    let vx ← register x
    let m ← current
    go (.skipIf (!m.keypad.isPressed vx.toNat))
  | .readDelay x => do
    let m ← current
    setRegister x m.timers.delay
    go .next
  | .awaitKey x => do
    let m ← current
    match m.keypad.lowestPressed with
    | none => pure (.stay, .wait)
    | some key =>
      note (.keyTaken key)
      setRegister x key.toUInt8
      go .next
  | .setDelay x => do
    let vx ← register x
    update fun m => { m with timers := { m.timers with delay := vx } }
    go .next
  | .setSound x => do
    let vx ← register x
    update fun m => { m with timers := { m.timers with sound := vx } }
    go .next
  | .addIndex x => do
    let vx ← register x
    let m ← current
    setIndex (m.registers.index + vx.toUInt16)
    go .next
  | .loadGlyph x => do
    let vx ← register x
    let offset ← inLimit (product? glyphSize (vx &&& 0xF).toNat)
    let address ← inLimit (sum? fontStart offset)
    setIndex address.toUInt16
    go .next
  | .storeDecimal x => do
    let vx ← register x
    let m ← current
    onMemory (.store m.registers.index.toNat (decimalDigits vx))
    go .next
  | .storeRegisters x => do
    let m ← current
    let count ← inLimit (sum? x 1)
    let values ← inLimit (part? m.registers.toList 0 count)
    onMemory (.store m.registers.index.toNat values)
    go .next
  | .fetchRegisters x => do
    let m ← current
    let count ← inLimit (sum? x 1)
    let bytes ← onMemory (.read m.registers.index.toNat count)
    let values ← inLimit (copyInto? m.registers.values 0 count bytes)
    update fun m => { m with registers := { m.registers with values } }
    go .next

/-- The effect of an instruction, and then its step. -/
def perform (i : Instruction) : Strict Signal := do
  let (step, signal) ← effect i
  let m ← current
  let pc ← inLimit (step.advance? m.pc)
  update fun m => { m with pc }
  pure signal

section Run

variable {α β : Type}

@[simp]
theorem run_pure (a : α) (m : Machine) : (pure a : Strict α).run m = some ⟨.ok a, m, []⟩ :=
  rfl

@[simp]
theorem run_bind (a : Strict α) (f : α → Strict β) (m : Machine) :
    (a >>= f).run m = (a.run m).bind fun o => o.andThen? fun b m' => (f b).run m' :=
  rfl

@[simp]
theorem run_lift (a : Routine α) (m : Machine) : (liftM a : Strict α).run m = some (a.run m) :=
  rfl

@[simp]
theorem run_inLimit (a : α) (m : Machine) : (inLimit (some a)).run m = some ⟨.ok a, m, []⟩ :=
  rfl

/-- **A routine in two parts** that both do not break off. -/
theorem run_bind_eq {a : Strict α} {b : Routine α} {f : α → Strict β} {g : α → Routine β}
    {m : Machine} (ha : a.run m = some (b.run m))
    (hf : ∀ c, (b.run m).result = .ok c →
      (f c).run (b.run m).machine = some ((g c).run (b.run m).machine)) :
    (a >>= f).run m = some ((b >>= g).run m) := by
  rw [run_bind, ha, Option.bind_some, Routine.run_bind]
  exact Outcome.andThen?_eq hf

end Run

variable {m m' : Machine} {i : Instruction} {step : Step} {signal : Signal} {log : List Record}
  {e : Fault}

theorem run_register_of_lt {x : Nat} (h : x < registerCount) (m : Machine) :
    (register x).run m = some ⟨.ok (m.registers.valueAt x), m, []⟩ := by
  simp [register, Registers.valueAt, h]

theorem run_setRegister_of_lt {x : Nat} (h : x < registerCount) (value : UInt8) (m : Machine) :
    (setRegister x value).run m =
      some ⟨.ok (), { m with registers := m.registers.write x value }, []⟩ := by
  have hset : m.registers.values.setIfInBounds x value = m.registers.values.set x value := by
    simp [Vector.setIfInBounds, Vector.set, Array.setIfInBounds, h]
  simp [setRegister, setAt?_of_lt _ _ h, Registers.write, hset]

/-- Writes to registers that exist, one after the other. -/
theorem run_setRegisters {l : List (Nat × UInt8)} (h : ∀ p ∈ l, p.1 < registerCount)
    (m : Machine) :
    (forM l fun p => setRegister p.1 p.2).run m =
      some ⟨.ok (), { m with registers := m.registers.writeAll l }, []⟩ := by
  induction l generalizing m with
  | nil => rfl
  | cons p l ih =>
    obtain ⟨hp, hl⟩ := List.forall_mem_cons.1 h
    simp [run_setRegister_of_lt hp, ih hl, Registers.writeAll]

theorem run_read_of_le {a len : Nat} (h : a + len ≤ memorySize) (m : Machine) :
    (onMemory (.read a len)).run m = some ⟨.ok (m.memory.bytesFrom a len), m, []⟩ := by
  show ((Memory.InPlace.read a len).run m.memory).map _ = _
  rw [Memory.InPlace.run_read, m.memory.read_of_le h]
  rfl

theorem run_read_of_lt {a len : Nat} (h : memorySize < a + len) (m : Machine) :
    (onMemory (.read a len)).run m = some ⟨.error (.memory (.outOfBounds a len)), m, []⟩ := by
  show ((Memory.InPlace.read a len).run m.memory).map _ = _
  rw [Memory.InPlace.run_read, m.memory.read_of_lt h]
  rfl

theorem run_store_of_le {a : Nat} (bs : List UInt8) (h : a + bs.length ≤ memorySize)
    (m : Machine) :
    (onMemory (.store a bs)).run m =
      some ⟨.ok (), { m with memory := m.memory.poke a bs }, []⟩ := by
  show ((Memory.InPlace.store a bs).run m.memory).map _ = _
  rw [Memory.InPlace.run_store, m.memory.write_of_le bs h]
  rfl

theorem run_store_of_lt {a : Nat} (bs : List UInt8) (h : memorySize < a + bs.length)
    (m : Machine) :
    (onMemory (.store a bs)).run m =
      some ⟨.error (.memory (.outOfBounds a bs.length)), m, []⟩ := by
  show ((Memory.InPlace.store a bs).run m.memory).map _ = _
  rw [Memory.InPlace.run_store, m.memory.write_of_lt bs h]
  rfl

/-- **An instruction that is performed** keeps all limits, if its operands fit, and has the strict
effect that its rule tells. -/
theorem effect_of_performs (h : Instruction.Performs m i m' step signal log) (hi : i.Fits) :
    (effect i).run m = some ⟨.ok (step, signal), m', log⟩ := by
  cases h with
  | call nnn h => simp [effect, Instruction.effect, Stack.push, h, go]
  | @ret a rest h =>
    have ha := a.toNat_lt
    have hsum : a.toNat + instructionSize < UInt64.size := show a.toNat + 2 < 2 ^ 64 by omega
    simp [effect, Stack.pop, h, sum?_of_lt hsum, go]
  | skipIfEqual hx hy => simp [effect, run_register_of_lt hx, run_register_of_lt hy, go]
  | skipUnlessEqual hx hy => simp [effect, run_register_of_lt hx, run_register_of_lt hy, go]
  | alu op hx hy =>
    simp [effect, run_register_of_lt hx, run_register_of_lt hy,
      run_setRegisters (Instruction.lt_of_mem_writes hx), go]
  | jumpOffset nnn =>
    have hv := (m.registers.valueAt 0).toNat_lt
    have hnnn : nnn < 4096 := hi
    have hsum : (m.registers.valueAt 0).toNat + nnn < UInt64.size :=
      show (m.registers.valueAt 0).toNat + nnn < 2 ^ 64 by omega
    simp [effect, run_register_of_lt (show 0 < registerCount by decide), sum?_of_lt hsum, go]
  | @draw x y n hx hy h screen hit hdraw =>
    have hn : n ≤ memorySize := Nat.le_trans (Nat.le_add_left n _) h
    have hflag : 15 < registerCount := by decide
    have hlen : (m.memory.bytesFrom m.registers.index.toNat n).length ≤ memorySize := by
      rwa [Memory.length_bytesFrom]
    have hstrict :=
      m.screen.drawSprite?_eq (m.registers.valueAt x) (m.registers.valueAt y) hlen
    rw [hdraw] at hstrict
    simp [effect, run_register_of_lt hx, run_register_of_lt hy, run_read_of_le h, hstrict,
      run_setRegister_of_lt hflag, Registers.setFlag]
  | awaitNoKey x h => simp [effect, h]
  | awaitKey hx h => simp [effect, h, run_setRegister_of_lt hx, go]
  | @loadGlyph x hx =>
    have hd := (m.registers.valueAt x &&& 0xF).toNat_lt
    have hproduct : glyphSize * (m.registers.valueAt x &&& 0xF).toNat < UInt64.size :=
      show 5 * (m.registers.valueAt x &&& 0xF).toNat < 2 ^ 64 by omega
    have hsum : fontStart + glyphSize * (m.registers.valueAt x &&& 0xF).toNat < UInt64.size := by
      rwa [Nat.zero_add]
    simp only [effect, run_bind, run_register_of_lt hx, Option.bind_some, Outcome.andThen?_ok,
      product?_of_lt hproduct, sum?_of_lt hsum, run_inLimit]
    rfl
  -- the blocks that are stored and fetched are inside memory, as the rules ask
  | @storeDecimal x hx h =>
    simp [effect, run_register_of_lt hx,
      run_store_of_le (decimalDigits (m.registers.valueAt x)) h, go]
  | @storeRegisters x hx h =>
    simp [effect, sum?_one_of_lt hx, m.registers.part?_upTo hx,
      run_store_of_le (m.registers.upTo x) (by simpa using h), go]
  | @fetchRegisters x hx h =>
    have hcopy := m.registers.copyInto?_values
      (m.memory.bytesFrom m.registers.index.toNat (x + 1)) (by simpa using Nat.succ_le_of_lt hx)
    rw [Memory.length_bytesFrom] at hcopy
    simp [effect, sum?_one_of_lt hx, run_read_of_le h, hcopy, go, Registers.fill]
  | _ => simp [effect, Instruction.effect, go, *, run_register_of_lt, run_setRegister_of_lt]

/-- **An instruction that is refused** keeps all limits, if its operands fit, and leaves everything
as it was. -/
theorem effect_of_refuses (h : Instruction.Refuses m i e) (hi : i.Fits) :
    (effect i).run m = some ⟨.error e, m, []⟩ := by
  cases h with
  | ret h => simp [effect, Stack.pop, h]
  | call nnn h => simp [effect, Instruction.effect, Stack.push, Nat.not_lt_of_le h]
  | draw hx hy h =>
    simp [effect, run_register_of_lt hx, run_register_of_lt hy, run_read_of_lt h]
  | @storeDecimal x hx h =>
    have hlen : (decimalDigits (m.registers.valueAt x)).length = 3 := rfl
    simp [effect, run_register_of_lt hx,
      run_store_of_lt (decimalDigits (m.registers.valueAt x)) h, hlen]
  | @storeRegisters x hx h =>
    simp [effect, sum?_one_of_lt hx, m.registers.part?_upTo hx,
      run_store_of_lt (m.registers.upTo x) (by simpa using h)]
  | @fetchRegisters x h =>
    have hx : x < registerCount := Instruction.namesRegisters_of_fits hi x List.mem_cons_self
    simp [effect, sum?_one_of_lt hx, run_read_of_lt h]

/-- A strict effect is the effect. -/
theorem run_effect (hi : i.Fits) (m : Machine) : (effect i).run m = some (i.effect.run m) := by
  rcases Instruction.performs_or_refuses m (Instruction.namesRegisters_of_fits hi) with
    ⟨m', step, signal, log, hp⟩ | ⟨e, hr⟩
  · rw [effect_of_performs hp hi, Instruction.run_of_performs hp]
  · rw [effect_of_refuses hr hi, Instruction.run_of_refuses hr]

/-- **A strict instruction** does what the instruction does, and does not break off. -/
theorem run_perform (hi : i.Fits) (hpc : m.pc ≤ highestTarget) :
    (perform i).run m = some (i.perform.run m) := by
  have hstays : (i.effect.run m).machine.pc = m.pc := by
    rcases Instruction.performs_or_refuses m (Instruction.namesRegisters_of_fits hi) with
      ⟨m', step, signal, log, hp⟩ | ⟨e, hr⟩
    · rw [Instruction.run_of_performs hp]
      exact hp.pc_eq
    · rw [Instruction.run_of_refuses hr]
  refine run_bind_eq (run_effect hi m) fun p _ => ?_
  -- the effect has left the program counter where it was, so there is room for the step
  generalize (i.effect.run m).machine = m' at hstays
  simp [Step.advance?_eq (hstays ▸ hpc), Instruction.move]

end Strict

end Chip8
