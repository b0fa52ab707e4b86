import Chip8.Parameters

/-!
# Arithmetic

The operations on two registers `VX` and `VY`. Each writes its result to `VX`, and those with a
carry, a borrow or a shifted-out bit also write `VF`.

* The sum and both differences write the flag after the result, the shifts write it before. This
  decides what `VF` holds when it is also the target.
-/

namespace Chip8

/-- An operation on two registers. -/
inductive Alu where
  | assign
  | or
  | and
  | xor
  | add
  | sub
  | shiftRight
  | subReverse
  | shiftLeft
deriving DecidableEq

namespace Alu

/-- What an operation makes of `VX` and `VY`. -/
def result : Alu → UInt8 → UInt8 → UInt8
  | assign, _, vy => vy
  | or, vx, vy => vx ||| vy
  | and, vx, vy => vx &&& vy
  | xor, vx, vy => vx ^^^ vy
  | add, vx, vy => vx + vy
  | sub, vx, vy => vx - vy
  | shiftRight, vx, _ => vx >>> 1
  | subReverse, vx, vy => vy - vx
  | shiftLeft, vx, _ => vx <<< 1

/-- The flag of an operation: carry, no borrow, or the bit that is shifted out. -/
def flag? : Alu → UInt8 → UInt8 → Option Bool
  | add, vx, vy => some (256 ≤ vx.toNat + vy.toNat)
  | sub, vx, vy => some (vy ≤ vx)
  | shiftRight, vx, _ => some (vx &&& 0x01 != 0)
  | subReverse, vx, vy => some (vx ≤ vy)
  | shiftLeft, vx, _ => some (vx &&& 0x80 != 0)
  | _, _, _ => none

/-- Whether the flag is written before the result. -/
def flagFirst : Alu → Bool
  | shiftRight => true
  | shiftLeft => true
  | _ => false

/-- The register writes of an operation on `VX` and `VY`, in order. -/
def writes (op : Alu) (x : Nat) (vx vy : UInt8) : List (Nat × UInt8) :=
  let flag := (op.flag? vx vy).toList.map fun b => (flagRegister, b.toUInt8)
  let value := (x, op.result vx vy)
  if op.flagFirst then flag ++ [value] else value :: flag

end Alu

end Chip8
