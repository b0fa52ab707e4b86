import Chip8.Proofs.Limits

/-!
# Memory in place

Memory as one store that is read and changed in place. What a computation has stored stays when it
fails, and past a limit it breaks off with nothing at all.

* `InPlace.run_read`: reading in place never breaks off, and gives what `Memory.read` gives.
* `InPlace.run_store`, `InPlace.run_load`: storing in place never breaks off, leaves what
  `Memory.write` and `Memory.load` give, and leaves memory as it was if it is refused.
-/

namespace Chip8

namespace Memory

/-- A computation on one memory, which it changes in place. A fault keeps what was stored before;
past a limit there is neither a result nor a memory. -/
abbrev InPlace (α : Type) : Type :=
  ExceptT Fault (StateT Memory Option) α

namespace InPlace

/-- Runs a computation on a memory. -/
def run {α : Type} (a : InPlace α) (m : Memory) : Option (Except Fault α × Memory) :=
  StateT.run (ExceptT.run a) m

/-- The value of an operation that keeps its limit. -/
def inLimit {α : Type} (value : Option α) : InPlace α :=
  ExceptT.lift (StateT.lift value)

/-- Refuses a range that is not inside. -/
def checkRange (address len : Nat) : InPlace Unit :=
  if address + len ≤ memorySize then pure () else throw (.outOfBounds address len)

/-- The `len` bytes from `address` on. -/
def read (address len : Nat) : InPlace (List UInt8) := do
  checkRange address len
  let m ← get
  inLimit (part? m.toList address (address + len))

/-- Stores `data` from `address` on. -/
def store (address : Nat) (data : List UInt8) : InPlace Unit := do
  checkRange address data.length
  let m ← get
  let bytes ← inLimit (copyInto? m.bytes address (address + data.length) data)
  set (⟨bytes⟩ : Memory)

/-- Copies a program to the program start. -/
def load (program : List UInt8) : InPlace Unit := do
  if programCapacity < program.length then
    throw (.programTooLarge program.length programCapacity)
  store programStart program

end InPlace

/-- A result, and the memory that a store with this result leaves: the new one, or the one that it
met. -/
def settle (m : Memory) : Except Fault Memory → Except Fault Unit × Memory
  | .ok m' => (.ok (), m')
  | .error f => (.error f, m)

namespace InPlace

variable {α β : Type} {m : Memory}

theorem run_bind (a : InPlace α) (f : α → InPlace β) (m : Memory) :
    (a >>= f).run m = (a.run m).bind fun p =>
      match p.1 with
      | .ok b => (f b).run p.2
      | .error e => some (.error e, p.2) := by
  show Option.bind _ _ = _
  congr 1
  funext p
  rcases p with ⟨e | b, m'⟩ <;> rfl

theorem run_checkRange_of_le {a len : Nat} (h : a + len ≤ memorySize) :
    (checkRange a len).run m = some (.ok (), m) := by
  rw [checkRange, if_pos h]
  rfl

theorem run_checkRange_of_lt {a len : Nat} (h : memorySize < a + len) :
    (checkRange a len).run m = some (.error (.outOfBounds a len), m) := by
  rw [checkRange, if_neg (Nat.not_le_of_lt h)]
  rfl

/-- **Reading in place** keeps all limits, and gives what `Memory.read` gives. -/
theorem run_read (m : Memory) (a len : Nat) : (read a len).run m = some (m.read a len, m) := by
  rw [read, run_bind]
  rcases Nat.lt_or_ge memorySize (a + len) with h | h
  · rw [run_checkRange_of_lt h, m.read_of_lt h]
    rfl
  · rw [run_checkRange_of_le h, m.read_of_le h]
    show (inLimit (part? m.toList a (a + len))).run m = _
    rw [part?_toList m h]
    rfl

/-- **Storing in place** keeps all limits, and leaves what `Memory.write` gives, or the memory as it
was. -/
theorem run_store (m : Memory) (a : Nat) (bs : List UInt8) :
    (store a bs).run m = some (m.settle (m.write a bs)) := by
  rw [store, run_bind]
  rcases Nat.lt_or_ge memorySize (a + bs.length) with h | h
  · rw [run_checkRange_of_lt h, m.write_of_lt bs h]
    rfl
  · rw [run_checkRange_of_le h, m.write_of_le bs h]
    show (inLimit (copyInto? m.bytes a (a + bs.length) bs) >>= fun bytes =>
      (set (⟨bytes⟩ : Memory) : InPlace Unit)).run m = _
    rw [copyInto?_bytes m h]
    rfl

/-- **Loading in place** keeps all limits, and leaves what `Memory.load` gives, or the memory as it
was. -/
theorem run_load (m : Memory) (program : List UInt8) :
    (load program).run m = some (m.settle (m.load program)) := by
  unfold load Memory.load
  by_cases h : programCapacity < program.length
  · rw [if_pos h, if_pos h]
    rfl
  · rw [if_neg h, if_neg h]
    exact run_store m programStart program

end InPlace

end Memory

end Chip8
