import Chip8.Parameters

/-!
# Registers

Sixteen general registers `V0` to `VF` of eight bits, and the index register `I`, which holds an
address of twelve bits. Register numbers are arbitrary; beyond `VF` there is no register.

* `valueAt_write`: a written register holds its value, and every other one is as before.
* `valueAt_fill`: the first registers take the given bytes, and the rest is as before.
* `toNat_index_setIndex`: the index register keeps twelve bits of an address.
-/

namespace Chip8

/-- The general registers and the index register. -/
structure Registers where
  values : Vector UInt8 registerCount
  index : UInt16
deriving DecidableEq

namespace Registers

/-- Registers at power-on, all zero. -/
def blank : Registers :=
  ⟨Vector.replicate registerCount 0, 0⟩

/-- The value of a register; beyond `VF` it is zero. -/
def valueAt (r : Registers) (x : Nat) : UInt8 :=
  r.values[x]?.getD 0

/-- Writes a register; beyond `VF` nothing happens. -/
def write (r : Registers) (x : Nat) (value : UInt8) : Registers :=
  { r with values := r.values.setIfInBounds x value }

/-- The value of a register, if there is one of that number. -/
def get? (r : Registers) (x : Nat) : Option UInt8 :=
  if x < registerCount then some (r.valueAt x) else none

/-- Writes a register, if there is one of that number. -/
def set? (r : Registers) (x : Nat) (value : UInt8) : Option Registers :=
  if x < registerCount then some (r.write x value) else none

/-- Sets `VF` to one or zero. -/
def setFlag (r : Registers) (flag : Bool) : Registers :=
  r.write flagRegister flag.toUInt8

/-- Sets the index register to the low twelve bits of an address. -/
def setIndex (r : Registers) (address : UInt16) : Registers :=
  { r with index := address &&& indexMask }

/-- The values of the first `count` registers, if there are so many. -/
def first? (r : Registers) (count : Nat) : Option (List UInt8) :=
  if count ≤ registerCount then some ((List.range count).map r.valueAt) else none

/-- Overwrites the registers from `V0` on; bytes beyond `VF` are dropped. -/
def fill (r : Registers) (bytes : List UInt8) : Registers :=
  { r with values := Vector.ofFn fun i => bytes[i.val]?.getD r.values[i] }

/-- Overwrites the registers from `V0` on, if there is one for every byte. -/
def fill? (r : Registers) (bytes : List UInt8) : Option Registers :=
  if bytes.length ≤ registerCount then some (r.fill bytes) else none

/-- The values of all general registers, `V0` first. -/
def toList (r : Registers) : List UInt8 :=
  r.values.toList

theorem ext_valueAt {r r' : Registers} (hi : r.index = r'.index)
    (h : ∀ x, x < registerCount → r.valueAt x = r'.valueAt x) : r = r' := by
  obtain ⟨v, i⟩ := r
  obtain ⟨v', i'⟩ := r'
  obtain rfl : i = i' := hi
  congr 1
  apply Vector.ext
  intro x hx
  simpa [valueAt, hx] using h x hx

/-- A written register holds its value, and every other one is as before. -/
theorem valueAt_write (r : Registers) (x : Nat) (value : UInt8) (i : Nat)
    (hi : i < registerCount) :
    (r.write x value).valueAt i = if x = i then value else r.valueAt i := by
  simp only [valueAt, write, Vector.getElem?_setIfInBounds]
  split
  · subst_vars
    simp [hi]
  · rfl

theorem valueAt_of_le (r : Registers) {x : Nat} (h : registerCount ≤ x) : r.valueAt x = 0 := by
  simp [valueAt, Vector.getElem?_eq_none h]

/-- The first registers take the given bytes, and the rest is as before. -/
theorem valueAt_fill (r : Registers) (bytes : List UInt8) (i : Nat) (hi : i < registerCount) :
    (r.fill bytes).valueAt i = bytes[i]?.getD (r.valueAt i) := by
  simp [valueAt, fill, hi]

@[simp]
theorem index_write (r : Registers) (x : Nat) (value : UInt8) :
    (r.write x value).index = r.index :=
  rfl

@[simp]
theorem index_setFlag (r : Registers) (flag : Bool) : (r.setFlag flag).index = r.index :=
  rfl

@[simp]
theorem index_fill (r : Registers) (bytes : List UInt8) : (r.fill bytes).index = r.index :=
  rfl

/-- The index register keeps twelve bits of an address. -/
theorem toNat_index_setIndex (r : Registers) (address : UInt16) :
    (r.setIndex address).index.toNat = address.toNat % memorySize := by
  show (address &&& indexMask).toNat = _
  rw [UInt16.toNat_and]
  exact Nat.and_two_pow_sub_one_eq_mod address.toNat 12

end Registers

end Chip8
