import Chip8.Numeral
import Chip8.Parameters
import Chip8.Word

/-!
# Memory

A flat store of 4096 bytes with the font at its start. Every access names a range of addresses
and succeeds exactly if the whole range lies inside, an empty range included.

* `byteAt_poke`: what a byte holds after a run of bytes was stored.
* `read_eq_ok_iff`, `write_eq_ok_iff`, `load_eq_ok_iff`: when an access succeeds, and its result.
-/

namespace Chip8

/-- The bytes of the machine, program and data alike. -/
structure Memory where
  bytes : Vector UInt8 memorySize
deriving DecidableEq

namespace Memory

/-- Why memory refuses an access. -/
inductive Fault where
  /-- The `len` bytes from `address` on are not all inside. -/
  | outOfBounds (address len : Nat)
  /-- A program of `len` bytes does not fit behind the program start. -/
  | programTooLarge (len capacity : Nat)
deriving DecidableEq

/-- The text of a fault. -/
def Fault.message : Fault → String
  | outOfBounds address len =>
    "Memory access out of bounds at " ++ Numeral.hex 4 address ++ " with a length of " ++
      Numeral.decimal len ++ "."
  | programTooLarge len capacity =>
    "The program of " ++ Numeral.decimal len ++ " bytes does not fit into the " ++
      Numeral.decimal capacity ++ " bytes of program memory."

/-- The byte at an address; beyond the end it is zero. -/
def byteAt (m : Memory) (address : Nat) : UInt8 :=
  m.bytes[address]?.getD 0

/-- Stores bytes one after the other from `address` on; what falls beyond the end is dropped. -/
def poke (m : Memory) (address : Nat) : List UInt8 → Memory
  | [] => m
  | b :: bs => poke ⟨m.bytes.setIfInBounds address b⟩ (address + 1) bs

/-- Memory at power-on: the font, and zeros everywhere else. -/
def blank : Memory :=
  poke ⟨Vector.replicate memorySize 0⟩ fontStart font

/-- The `len` bytes from `address` on. -/
def read (m : Memory) (address len : Nat) : Except Fault (List UInt8) :=
  if address + len ≤ memorySize then
    .ok ((List.range len).map fun i => m.byteAt (address + i))
  else .error (.outOfBounds address len)

/-- The single byte at `address`. -/
def readByte (m : Memory) (address : Nat) : Except Fault UInt8 :=
  if address + 1 ≤ memorySize then .ok (m.byteAt address)
  else .error (.outOfBounds address 1)

/-- The instruction word at `address`, high byte first. -/
def readWord (m : Memory) (address : Nat) : Except Fault Word :=
  if address + instructionSize ≤ memorySize then
    .ok (Word.ofBytes (m.byteAt address) (m.byteAt (address + 1)))
  else .error (.outOfBounds address instructionSize)

/-- Stores `data` from `address` on. -/
def write (m : Memory) (address : Nat) (data : List UInt8) : Except Fault Memory :=
  if address + data.length ≤ memorySize then .ok (m.poke address data)
  else .error (.outOfBounds address data.length)

/-- Stores a single byte. -/
def writeByte (m : Memory) (address : Nat) (value : UInt8) : Except Fault Memory :=
  m.write address [value]

/-- Copies a program to the program start. -/
def load (m : Memory) (program : List UInt8) : Except Fault Memory :=
  if programCapacity < program.length then
    .error (.programTooLarge program.length programCapacity)
  else m.write programStart program

/-- All bytes, in the order of their addresses. -/
def toList (m : Memory) : List UInt8 :=
  m.bytes.toList

theorem byteAt_of_le (m : Memory) {a : Nat} (h : memorySize ≤ a) : m.byteAt a = 0 := by
  simp [byteAt, Vector.getElem?_eq_none h]

theorem ext_byteAt {m m' : Memory} (h : ∀ a, a < memorySize → m.byteAt a = m'.byteAt a) :
    m = m' := by
  obtain ⟨b⟩ := m
  obtain ⟨b'⟩ := m'
  congr 1
  apply Vector.ext
  intro a ha
  simpa [byteAt, ha] using h a ha

/-- A stored byte is found again, and every other byte is as before. -/
theorem byteAt_poke (m : Memory) (a : Nat) (bs : List UInt8) (i : Nat) (hi : i < memorySize) :
    (m.poke a bs).byteAt i = if a ≤ i then bs[i - a]?.getD (m.byteAt i) else m.byteAt i := by
  induction bs generalizing m a with
  | nil => simp [poke]
  | cons b bs ih =>
    rw [poke, ih]
    have key : byteAt ⟨m.bytes.setIfInBounds a b⟩ i = if a = i then b else m.byteAt i := by
      simp only [byteAt, Vector.getElem?_setIfInBounds]
      split
      · subst_vars; simp [hi]
      · rfl
    rw [key]
    rcases Nat.lt_trichotomy a i with h | h | h
    · have e : i - a = i - (a + 1) + 1 := by omega
      simp [Nat.le_of_lt h, Nat.succ_le_of_lt h, Nat.ne_of_lt h, e]
    · subst h
      rw [if_neg (Nat.not_succ_le_self a), if_pos rfl, if_pos (Nat.le_refl a), Nat.sub_self]
      rfl
    · simp [Nat.not_le_of_lt h, Nat.not_le_of_lt (Nat.lt_succ_of_lt h), Nat.ne_of_gt h]

theorem read_eq_ok_iff {m : Memory} {a len : Nat} {l : List UInt8} :
    m.read a len = .ok l ↔
      a + len ≤ memorySize ∧ l = (List.range len).map fun i => m.byteAt (a + i) := by
  unfold read
  split
  · simp_all [eq_comm]
  · rename_i h
    simp [h]

theorem write_eq_ok_iff {m m' : Memory} {a : Nat} {bs : List UInt8} :
    m.write a bs = .ok m' ↔ a + bs.length ≤ memorySize ∧ m' = m.poke a bs := by
  unfold write
  split
  · simp_all [eq_comm]
  · rename_i h
    simp [h]

theorem load_eq_ok_iff {m m' : Memory} {p : List UInt8} :
    m.load p = .ok m' ↔ p.length ≤ programCapacity ∧ m' = m.poke programStart p := by
  unfold load
  split
  · rename_i h
    simp only [reduceCtorEq, false_iff]
    omega
  · rw [write_eq_ok_iff]
    simp only [memorySize, programStart, programCapacity] at *
    constructor <;> rintro ⟨-, h⟩ <;> exact ⟨by omega, h⟩

end Memory

end Chip8
