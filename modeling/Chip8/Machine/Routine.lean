import Chip8.Machine.Basic
import Chip8.Machine.Record

/-!
# Routines

Computations on the machine that note things down and may fail. A failure ends the routine, and
what was changed and noted down before it stays.

* `run_bind`: two routines in a row run one after the other, and their notes are joined.
-/

namespace Chip8

/-- What a routine leaves: its result or fault, the machine, and the notes in order. -/
structure Outcome (α : Type) where
  result : Except Fault α
  machine : Machine
  log : List Record

/-- Goes on with the result, if there is one. -/
def Outcome.andThen {α β : Type} (o : Outcome α) (f : α → Machine → Outcome β) : Outcome β :=
  match o.result with
  | .error e => ⟨.error e, o.machine, o.log⟩
  | .ok a =>
    let p := f a o.machine
    ⟨p.result, p.machine, o.log ++ p.log⟩

namespace Outcome

variable {α β : Type}

@[simp]
theorem andThen_ok (a : α) (m : Machine) (l : List Record) (f : α → Machine → Outcome β) :
    (⟨.ok a, m, l⟩ : Outcome α).andThen f =
      ⟨(f a m).result, (f a m).machine, l ++ (f a m).log⟩ :=
  rfl

@[simp]
theorem andThen_error (e : Fault) (m : Machine) (l : List Record) (f : α → Machine → Outcome β) :
    (⟨.error e, m, l⟩ : Outcome α).andThen f = ⟨.error e, m, l⟩ :=
  rfl

end Outcome

/-- A computation on the machine. -/
def Routine (α : Type) : Type :=
  Machine → Outcome α

namespace Routine

/-- Runs a routine on a machine. -/
def run {α : Type} (a : Routine α) (m : Machine) : Outcome α :=
  a m

instance : Monad Routine where
  pure a := fun m => ⟨.ok a, m, []⟩
  bind a f := fun m => (a m).andThen f

/-- Ends with a fault. -/
def fail {α : Type} (e : Fault) : Routine α := fun m =>
  ⟨.error e, m, []⟩

/-- Notes something down. -/
def note (r : Record) : Routine Unit := fun m =>
  ⟨.ok (), m, [r]⟩

/-- The machine as it is. -/
def current : Routine Machine := fun m =>
  ⟨.ok m, m, []⟩

/-- Changes the machine. -/
def update (f : Machine → Machine) : Routine Unit := fun m =>
  ⟨.ok (), f m, []⟩

/-- The value of a computation, or its fault. -/
def ofExcept {ε α : Type} (wrap : ε → Fault) : Except ε α → Routine α
  | .ok a => pure a
  | .error e => fail (wrap e)

/-- The value of a general register. -/
def register (x : Nat) : Routine UInt8 := do
  match (← current).registers.get? x with
  | some value => pure value
  | none => fail (.noRegister x)

/-- Puts new registers in place; there are none if register `x`, which they needed, does not exist. -/
def putRegisters (x : Nat) : Option Registers → Routine Unit
  | some r => update fun m => { m with registers := r }
  | none => fail (.noRegister x)

/-- Sets a general register. -/
def setRegister (x : Nat) (value : UInt8) : Routine Unit := do
  putRegisters x ((← current).registers.set? x value)

/-- Sets `VF` to one or zero. -/
def setFlag (flag : Bool) : Routine Unit :=
  update fun m => { m with registers := m.registers.setFlag flag }

/-- Sets the index register. -/
def setIndex (address : UInt16) : Routine Unit :=
  update fun m => { m with registers := m.registers.setIndex address }

section Run

variable {α β ε : Type}

@[simp]
theorem run_pure (a : α) (m : Machine) : (pure a : Routine α).run m = ⟨.ok a, m, []⟩ :=
  rfl

/-- **Two routines in a row** run one after the other, and their notes are joined. -/
@[simp]
theorem run_bind (a : Routine α) (f : α → Routine β) (m : Machine) :
    (a >>= f).run m = (a.run m).andThen fun b m' => (f b).run m' :=
  rfl

@[simp]
theorem run_fail (e : Fault) (m : Machine) : (fail e : Routine α).run m = ⟨.error e, m, []⟩ :=
  rfl

@[simp]
theorem run_note (r : Record) (m : Machine) : (note r).run m = ⟨.ok (), m, [r]⟩ :=
  rfl

@[simp]
theorem run_current (m : Machine) : current.run m = ⟨.ok m, m, []⟩ :=
  rfl

@[simp]
theorem run_update (f : Machine → Machine) (m : Machine) : (update f).run m = ⟨.ok (), f m, []⟩ :=
  rfl

@[simp]
theorem run_ofExcept_ok (wrap : ε → Fault) (a : α) (m : Machine) :
    (ofExcept wrap (.ok a : Except ε α)).run m = ⟨.ok a, m, []⟩ :=
  rfl

@[simp]
theorem run_ofExcept_error (wrap : ε → Fault) (e : ε) (m : Machine) :
    (ofExcept wrap (.error e : Except ε α)).run m = ⟨.error (wrap e), m, []⟩ :=
  rfl

end Run

@[simp]
theorem run_setFlag (flag : Bool) (m : Machine) :
    (setFlag flag).run m = ⟨.ok (), { m with registers := m.registers.setFlag flag }, []⟩ :=
  rfl

@[simp]
theorem run_setIndex (address : UInt16) (m : Machine) :
    (setIndex address).run m = ⟨.ok (), { m with registers := m.registers.setIndex address }, []⟩ :=
  rfl

theorem run_register_of_lt {x : Nat} (h : x < registerCount) (m : Machine) :
    (register x).run m = ⟨.ok (m.registers.valueAt x), m, []⟩ := by
  simp [register, Registers.get?, h]

theorem run_setRegister_of_lt {x : Nat} (h : x < registerCount) (value : UInt8) (m : Machine) :
    (setRegister x value).run m =
      ⟨.ok (), { m with registers := m.registers.write x value }, []⟩ := by
  simp [setRegister, putRegisters, Registers.set?, h]

end Routine

end Chip8
