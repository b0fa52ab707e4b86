import Chip8.Proofs.Rules

/-!
# Snapshots

The state of the machine in natural numbers and functions of them, without the words and tables it
is made of. Every change that an instruction makes to a machine is a change of its snapshot.

* `snapshot_injective`: a snapshot leaves nothing of the machine out.
* `snapshot_write`, `snapshot_setIndex`, `snapshot_fill`, `snapshot_poke`: the snapshot after a
  change.
-/

namespace Chip8

/-- What the machine is at one moment, in natural numbers. -/
@[ext]
structure Snapshot where
  /-- The byte at an address; beyond the end it is zero. -/
  memory : Nat → Nat
  /-- The value of a general register; beyond `VF` it is zero. -/
  v : Nat → Nat
  i : Nat
  pc : Nat
  /-- The addresses of the open calls, the oldest first. -/
  stack : List Nat
  delay : Nat
  sound : Nat
  lit : Pixel → Bool
  pressed : Nat → Bool
  /-- The random stream, and how many of its bytes were drawn. -/
  stream : Nat → Nat
  drawn : Nat
  opcode : Nat
  toneEnded : Bool

namespace Snapshot

/-- The program counter goes to the next instruction. -/
def next (s : Snapshot) : Snapshot :=
  { s with pc := s.pc + 2 }

/-- The program counter passes over the next instruction if a condition holds. -/
def skipIf (s : Snapshot) (c : Bool) : Snapshot :=
  { s with pc := if c then s.pc + 4 else s.pc + 2 }

/-- Register `x` takes the value `a`. -/
def setV (s : Snapshot) (x a : Nat) : Snapshot :=
  { s with v := fun j => if j = x then a else s.v j }

/-- `VF` takes a flag. -/
def setFlag (s : Snapshot) (c : Bool) : Snapshot :=
  s.setV 0xF (if c then 1 else 0)

/-- Writes to two registers may change places. -/
theorem setV_comm (s : Snapshot) {x y : Nat} (h : x ≠ y) (a b : Nat) :
    (s.setV x a).setV y b = (s.setV y b).setV x a := by
  simp only [setV, mk.injEq, true_and, and_true]
  funext j
  by_cases hj : j = x
  · have hy : j ≠ y := by omega
    rw [if_neg hy, if_pos hj, if_pos hj]
  · rw [if_neg hj, if_neg hj]

/-- The bytes of memory from `a` on take the given values. -/
def store (s : Snapshot) (a : Nat) (values : List Nat) : Snapshot :=
  { s with memory := fun j => if a ≤ j then values[j - a]?.getD (s.memory j) else s.memory j }

end Snapshot

/-- The snapshot of a machine. -/
def Machine.snapshot (m : Machine) : Snapshot where
  memory a := (m.memory.byteAt a).toNat
  v x := (m.registers.valueAt x).toNat
  i := m.registers.index.toNat
  pc := m.pc
  stack := m.stack.toList.map UInt16.toNat
  delay := m.timers.delay.toNat
  sound := m.timers.sound.toNat
  lit := m.screen.isLit
  pressed := m.keypad.isPressed
  stream n := (m.random.bytes n).toNat
  drawn := m.random.drawn
  opcode := m.opcode.toNat
  toneEnded := m.toneEnded

/-- **A snapshot leaves nothing out.** -/
theorem Machine.snapshot_injective {m m' : Machine} (h : m.snapshot = m'.snapshot) : m = m' := by
  obtain ⟨memory, registers, pc, ⟨stack⟩, ⟨delay, sound⟩, screen, keypad, ⟨bytes, drawn⟩, opcode,
    tone⟩ := m
  obtain ⟨memory', registers', pc', ⟨stack'⟩, ⟨delay', sound'⟩, screen', keypad', ⟨bytes', drawn'⟩,
    opcode', tone'⟩ := m'
  simp only [snapshot, Snapshot.mk.injEq, UInt8.toNat_inj, UInt16.toNat_inj] at h
  obtain ⟨hmem, hv, hi, rfl, hstack, rfl, rfl, hlit, hkeys, hbytes, rfl, rfl, rfl⟩ := h
  obtain rfl : memory = memory' :=
    Memory.ext_byteAt fun a _ => UInt8.toNat_inj.1 (congrFun hmem a)
  obtain rfl : registers = registers' :=
    Registers.ext_valueAt hi fun x _ => UInt8.toNat_inj.1 (congrFun hv x)
  obtain rfl : stack = stack' := by
    have hrev := (List.map_inj_right fun _ _ => UInt16.toNat_inj.1).1 hstack
    exact List.reverse_inj.1 hrev
  obtain rfl : screen = screen' := Screen.ext_isLit fun p => congrFun hlit p
  obtain rfl : keypad = keypad' := Keypad.ext_isPressed fun k _ => congrFun hkeys k
  obtain rfl : bytes = bytes' := funext fun n => UInt8.toNat_inj.1 (congrFun hbytes n)
  rfl

namespace Machine

variable (m : Machine)

/-- A written register in the snapshot. -/
theorem snapshot_write {x : Nat} (hx : x < registerCount) (a : UInt8) :
    ({ m with registers := m.registers.write x a } : Machine).snapshot =
      m.snapshot.setV x a.toNat := by
  simp only [snapshot, Snapshot.setV, Snapshot.mk.injEq, true_and, and_true]
  refine ⟨funext fun j => ?_, rfl⟩
  rcases Nat.lt_or_ge j registerCount with hj | hj
  · rw [Registers.valueAt_write _ _ _ _ hj]
    by_cases h : x = j
    · rw [if_pos h, if_pos h.symm]
    · rw [if_neg h, if_neg (Ne.symm h)]
  -- beyond VF both are zero
  · have hne : j ≠ x := by omega
    rw [if_neg hne, Registers.valueAt_of_le _ hj, Registers.valueAt_of_le _ hj]

theorem snapshot_setFlag (flag : Bool) :
    ({ m with registers := m.registers.setFlag flag } : Machine).snapshot =
      m.snapshot.setFlag flag := by
  rw [Registers.setFlag, snapshot_write m (by decide)]
  cases flag <;> rfl

/-- Stored bytes in the snapshot. -/
theorem snapshot_poke {a : Nat} {bs : List UInt8} (h : a + bs.length ≤ memorySize) :
    ({ m with memory := m.memory.poke a bs } : Machine).snapshot =
      m.snapshot.store a (bs.map UInt8.toNat) := by
  simp only [snapshot, Snapshot.store, Snapshot.mk.injEq, and_true]
  funext j
  rcases Nat.lt_or_ge j memorySize with hj | hj
  · rw [Memory.byteAt_poke _ _ _ _ hj]
    split
    · rw [List.getElem?_map]
      cases bs[j - a]? <;> rfl
    · rfl
  · rw [Memory.byteAt_of_le _ hj, Memory.byteAt_of_le _ hj, List.getElem?_map,
      List.getElem?_eq_none (by omega)]
    split <;> rfl

/-- Fetched registers in the snapshot. -/
theorem snapshot_fill {a x : Nat} (hx : x < registerCount) :
    ({ m with registers := m.registers.fill (m.memory.bytesFrom a (x + 1)) } : Machine).snapshot =
      { m.snapshot with
        v := fun j => if j ≤ x then m.snapshot.memory (a + j) else m.snapshot.v j } := by
  simp only [snapshot, Snapshot.mk.injEq, true_and, and_true]
  refine ⟨funext fun j => ?_, rfl⟩
  rcases Nat.lt_or_ge j registerCount with hj | hj
  · rw [Registers.valueAt_fill _ _ _ hj, Memory.bytesFrom, List.getElem?_map]
    by_cases h : j ≤ x
    · rw [if_pos h, List.getElem?_range (by omega)]
      rfl
    · rw [if_neg h, List.getElem?_eq_none (by rw [List.length_range]; omega)]
      rfl
  · have hne : ¬ j ≤ x := by omega
    rw [if_neg hne, Registers.valueAt_of_le _ hj, Registers.valueAt_of_le _ hj]

/-- An index register in the snapshot keeps twelve bits. -/
theorem snapshot_setIndex (a : UInt16) :
    ({ m with registers := m.registers.setIndex a } : Machine).snapshot =
      { m.snapshot with i := a.toNat % 4096 } := by
  simp only [snapshot, Snapshot.mk.injEq, true_and, and_true]
  exact ⟨rfl, Registers.toNat_index_setIndex m.registers a⟩

/-- A pushed address in the snapshot. -/
theorem snapshot_push (a : UInt16) :
    ({ m with stack := ⟨a :: m.stack.entries⟩ } : Machine).snapshot =
      { m.snapshot with stack := m.snapshot.stack ++ [a.toNat] } := by
  simp [snapshot, Stack.toList]

/-- An address on top of the stack in the snapshot. -/
theorem snapshot_stack {a : UInt16} {rest : List UInt16} (h : m.stack.entries = a :: rest) :
    m.snapshot.stack = (rest.reverse.map UInt16.toNat) ++ [a.toNat] := by
  simp [snapshot, Stack.toList, h]

end Machine

end Chip8
