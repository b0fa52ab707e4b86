import Chip8.Proofs.Invocation
import Chip8.Proofs.Table

/-!
# Flags of arithmetic

Sums and differences write the flag after the result, so `VF` holds the flag even if it is also the
target. The shifts write the flag first. A shift whose target is `VF` leaves the shifted value there
and the bit that was shifted out is lost.

* `valueAt_writes`: what the writes of an operation leave in `VF`.
* `flag_after_arithmetic`: the flag of every operation that has one, in natural numbers.
* `shift_hides_flag`: a shift of `VF` does not leave the bit that was shifted out.
-/

namespace Chip8

/-- **What an operation leaves in `VF`**: its flag, or its result if that is written to `VF` after
the flag. -/
theorem Registers.valueAt_writes (r : Registers) {op : Alu} {a b : UInt8} {flag : Bool} (x : Nat)
    (h : op.flag? a b = some flag) :
    (r.writeAll (op.writes x a b)).valueAt flagRegister =
      if op.flagFirst ∧ x = flagRegister then op.result a b else flag.toUInt8 := by
  have hlt : flagRegister < registerCount := by decide
  by_cases hfirst : op.flagFirst = true
  · have hw : op.writes x a b = [(flagRegister, flag.toUInt8), (x, op.result a b)] := by
      simp [Alu.writes, h, hfirst]
    rw [hw]
    show ((r.write flagRegister flag.toUInt8).write x (op.result a b)).valueAt flagRegister = _
    rw [valueAt_write _ _ _ _ hlt, valueAt_write _ _ _ _ hlt, if_pos rfl]
    simp only [hfirst, true_and]
  · have hw : op.writes x a b = [(x, op.result a b), (flagRegister, flag.toUInt8)] := by
      simp [Alu.writes, h, hfirst]
    rw [hw, if_neg fun hand => hfirst hand.1]
    show ((r.write x (op.result a b)).write flagRegister flag.toUInt8).valueAt flagRegister = _
    rw [valueAt_write _ _ _ _ hlt, if_pos rfl]

namespace Machine

open Instruction Snapshot

variable {x y : Nat}

/-- However the operation is invoked, it succeeds and leaves the value in `VF`. -/
def LeavesFlag (m : Machine) (op : Alu) (x y value : Nat) : Prop :=
  ∀ r, m.Invokes (alu op x y) r →
    (r.run m).result = .ok .nothing ∧ (r.run m).machine.snapshot.v 0xF = value

/-- An operation leaves its flag in `VF` as the instruction table gives it, but for a shift into
`VF`, which leaves its result there. -/
theorem leavesFlag (m : Machine) (op : Alu) (hx : x < 16) (hy : y < 16) {result : Nat} {flag : Bool}
    (h : arithmetic (m.snapshot.v x) (m.snapshot.v y) op.nibble = some (result, some flag)) :
    m.LeavesFlag op x y (if op.flagFirst ∧ x = 0xF then result else if flag then 1 else 0) := by
  have htable := arithmetic_nibble op (m.registers.valueAt x) (m.registers.valueAt y)
  obtain ⟨hresult, hflag⟩ := Prod.mk.inj (Option.some.inj (htable.symm.trans h))
  intro r hr
  obtain ⟨w, hok, pc, timers, toneEnded, hmachine⟩ := hr.effect
  have hrun := run_of_performs (.alu (m := { m with opcode := w }) op hx hy)
  rw [hrun] at hok hmachine
  refine ⟨hok, ?_⟩
  rw [hmachine]
  show ((m.registers.writeAll _).valueAt flagRegister).toNat = _
  rw [m.registers.valueAt_writes x hflag]
  show (if op.flagFirst ∧ x = 0xF then op.result _ _ else flag.toUInt8).toNat = _
  by_cases hover : op.flagFirst ∧ x = 0xF
  · rw [if_pos hover, if_pos hover, hresult]
  · rw [if_neg hover, if_neg hover]
    cases flag <;> rfl

/-- **The flag of every operation.** For all register contents, all registers `VX` and `VY`, and
however it is invoked, the operation succeeds. `8XY4` then leaves 1 in `VF` if the sum has a carry,
`8XY5` and `8XY7` if the difference has no borrow, and 0 otherwise, also if `VF` is an operand or the
target. The shifts leave the bit that they shift out, unless their target is `VF`: then the shifted
value stays there. -/
theorem flag_after_arithmetic (m : Machine) (hx : x < 16) (hy : y < 16) :
    m.LeavesFlag .add x y (if 255 < m.snapshot.v x + m.snapshot.v y then 1 else 0) ∧
    m.LeavesFlag .sub x y (if m.snapshot.v y ≤ m.snapshot.v x then 1 else 0) ∧
    m.LeavesFlag .subReverse x y (if m.snapshot.v x ≤ m.snapshot.v y then 1 else 0) ∧
    m.LeavesFlag .shiftRight x y (if x = 0xF then m.snapshot.v x / 2 else m.snapshot.v x % 2) ∧
    m.LeavesFlag .shiftLeft x y
      (if x = 0xF then 2 * m.snapshot.v x % 256 else m.snapshot.v x / 128) := by
  have hlt : m.snapshot.v x < 256 := (m.registers.valueAt x).toNat_lt
  refine ⟨?_, ?_, ?_, ?_, ?_⟩
  · simpa [Alu.flagFirst] using m.leavesFlag .add hx hy rfl
  · simpa [Alu.flagFirst] using m.leavesFlag .sub hx hy rfl
  · simpa [Alu.flagFirst] using m.leavesFlag .subReverse hx hy rfl
  · have hbit : (if m.snapshot.v x % 2 = 1 then 1 else 0) = m.snapshot.v x % 2 := by
      split <;> omega
    simpa [Alu.flagFirst, hbit] using m.leavesFlag .shiftRight hx hy rfl
  · have hbit : (if 128 ≤ m.snapshot.v x then 1 else 0) = m.snapshot.v x / 128 := by
      split <;> omega
    simpa [Alu.flagFirst, hbit] using m.leavesFlag .shiftLeft hx hy rfl

/-- A sum with a carry into `VF` itself, and a shift of `VF`. -/
theorem flag_after_arithmetic_into_flag :
    let m := { boot (.repeating #[]) with
      registers := (Registers.blank.write 0xF 0xFF).write 1 1 }
    m.LeavesFlag .add 0xF 1 1 ∧ m.LeavesFlag .sub 1 0xF 0 ∧ m.LeavesFlag .shiftRight 1 0xF 1 ∧
      m.LeavesFlag .shiftRight 0xF 1 0x7F := by
  intro m
  obtain ⟨hadd, -, -, hright, -⟩ := m.flag_after_arithmetic (x := 0xF) (y := 1) (by decide)
    (by decide)
  obtain ⟨-, hsub, -, hone, -⟩ := m.flag_after_arithmetic (x := 1) (y := 0xF) (by decide)
    (by decide)
  have hvalue : m.snapshot.v 0xF = 0xFF := by decide
  rw [hvalue] at hright
  exact ⟨hadd, hsub, hone, hright⟩

/-- **A shift of `VF` hides its flag.** The lowest bit of 6 is 0 and the highest bit of `0x81` is 1,
but the shifts of `VF` leave 3 and 2 there. -/
theorem shift_hides_flag :
    let six := { boot (.repeating #[]) with registers := Registers.blank.write 0xF 6 }
    let high := { boot (.repeating #[]) with registers := Registers.blank.write 0xF 0x81 }
    ((alu .shiftRight 0xF 0xF).perform.run six).machine.snapshot.v 0xF = 3 ∧
      ((alu .shiftLeft 0xF 0xF).perform.run high).machine.snapshot.v 0xF = 2 ∧
      ¬ six.LeavesFlag .shiftRight 0xF 0xF (six.snapshot.v 0xF % 2) ∧
      ¬ high.LeavesFlag .shiftLeft 0xF 0xF (high.snapshot.v 0xF / 128) := by
  intro six high
  have hright : ((alu .shiftRight 0xF 0xF).perform.run six).machine.snapshot.v 0xF = 3 := by
    decide
  have hleft : ((alu .shiftLeft 0xF 0xF).perform.run high).machine.snapshot.v 0xF = 2 := by
    decide
  refine ⟨hright, hleft, fun h => ?_, fun h => ?_⟩
  · have hflag := (h _ .perform).2
    rw [hright] at hflag
    revert hflag
    decide
  · have hflag := (h _ .perform).2
    rw [hleft] at hflag
    revert hflag
    decide

end Machine

end Chip8
