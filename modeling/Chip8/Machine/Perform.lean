import Chip8.Machine.Routine
import Chip8.Step

/-!
# What the instructions do

Every instruction acts on the machine and says how the program counter moves and what the host has
to know. The program counter moves only after the instruction has succeeded.

* `run_perform`: an instruction is its effect, and then its step.
-/

namespace Chip8

/-- What an instruction asks of the host. -/
inductive Signal where
  /-- Nothing. -/
  | nothing
  /-- To wait for a key; the instruction comes again. -/
  | wait
  /-- To show the screen, which was drawn on. -/
  | redraw
deriving DecidableEq

namespace Instruction

open Routine

/-- Goes somewhere, and asks nothing of the host. -/
def go (step : Step) : Routine (Step × Signal) :=
  pure (step, .nothing)

/-- The effect of an instruction, without its step. -/
def effect : Instruction → Routine (Step × Signal)
  | clear => do
    update fun m => { m with screen := .blank }
    pure (.next, .redraw)
  | ret => do
    let m ← current
    let (address, rest) ← ofExcept .stack m.stack.pop
    update fun m => { m with stack := rest }
    note (.returned address.toNat)
    go (.jump (address.toNat + instructionSize))
  | jump nnn => go (.jump nnn)
  | call nnn => do
    let m ← current
    -- the call stores its own address, and the return goes on behind it
    let stack ← ofExcept .stack (m.stack.push m.pc.toUInt16)
    update fun m => { m with stack }
    note (.called nnn m.pc)
    go (.jump nnn)
  | skipIfConst x kk => do
    let vx ← register x
    go (.skipIf (vx == kk))
  | skipUnlessConst x kk => do
    let vx ← register x
    go (.skipIf (vx != kk))
  | skipIfEqual x y => do
    let vx ← register x
    let vy ← register y
    go (.skipIf (vx == vy))
  | load x kk => do
    setRegister x kk
    go .next
  | add x kk => do
    let vx ← register x
    setRegister x (vx + kk)
    go .next
  | alu op x y => do
    let vx ← register x
    let vy ← register y
    (op.writes x vx vy).forM fun (r, value) => setRegister r value
    go .next
  | skipUnlessEqual x y => do
    let vx ← register x
    let vy ← register y
    go (.skipIf (vx != vy))
  | loadIndex nnn => do
    setIndex nnn.toUInt16
    go .next
  | jumpOffset nnn => do
    let v0 ← register 0
    go (.jump (v0.toNat + nnn))
  | random x kk => do
    let m ← current
    update fun m => { m with random := m.random.advance }
    setRegister x (kk &&& m.random.peek)
    go .next
  | draw x y n => do
    let vx ← register x
    let vy ← register y
    let m ← current
    let sprite ← ofExcept .memory (m.memory.read m.registers.index.toNat n)
    let (screen, hit) := m.screen.drawSprite vx.toNat vy.toNat sprite
    update fun m => { m with screen }
    setFlag hit
    pure (.next, .redraw)
  | skipIfPressed x => do
    let vx ← register x
    let m ← current
    go (.skipIf (m.keypad.isPressed vx.toNat))
  | skipUnlessPressed x => do
    let vx ← register x
    let m ← current
    go (.skipIf (!m.keypad.isPressed vx.toNat))
  | readDelay x => do
    let m ← current
    setRegister x m.timers.delay
    go .next
  | awaitKey x => do
    let m ← current
    match m.keypad.lowestPressed with
    | none => pure (.stay, .wait)
    | some key =>
      note (.keyTaken key)
      setRegister x key.toUInt8
      go .next
  | setDelay x => do
    let vx ← register x
    update fun m => { m with timers := { m.timers with delay := vx } }
    go .next
  | setSound x => do
    let vx ← register x
    update fun m => { m with timers := { m.timers with sound := vx } }
    go .next
  | addIndex x => do
    let vx ← register x
    let m ← current
    setIndex (m.registers.index + vx.toUInt16)
    go .next
  | loadGlyph x => do
    let vx ← register x
    setIndex (glyphAddress vx).toUInt16
    go .next
  | storeDecimal x => do
    let vx ← register x
    let m ← current
    let memory ← ofExcept .memory
      (m.memory.write m.registers.index.toNat [vx / 100, vx / 10 % 10, vx % 10])
    update fun m => { m with memory }
    go .next
  | storeRegisters x => do
    let m ← current
    match m.registers.first? (x + 1) with
    | none => fail (.noRegister x)
    | some values =>
      let memory ← ofExcept .memory (m.memory.write m.registers.index.toNat values)
      update fun m => { m with memory }
      go .next
  | fetchRegisters x => do
    let m ← current
    let values ← ofExcept .memory (m.memory.read m.registers.index.toNat (x + 1))
    putRegisters x (m.registers.fill? values)
    go .next

/-- Moves the program counter. -/
def move (step : Step) : Routine Unit :=
  update fun m => { m with pc := step.advance m.pc }

/-- The effect of an instruction, and then its step. -/
def perform (i : Instruction) : Routine Signal := do
  let (step, signal) ← i.effect
  move step
  pure signal

theorem run_perform (i : Instruction) (m : Machine) :
    i.perform.run m = (i.effect.run m).andThen fun (step, signal) m' =>
      ⟨.ok signal, { m' with pc := step.advance m'.pc }, []⟩ :=
  rfl

end Instruction

end Chip8
