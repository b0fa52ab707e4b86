/-!
# Timers

The delay timer and the sound timer. Both count down by one with each tick and stop at zero, and
a tone sounds while the sound timer is not zero.

* `toNat_countDown`: a timer after a tick.
-/

namespace Chip8

/-- The two timers. -/
structure Timers where
  delay : UInt8
  sound : UInt8
deriving DecidableEq

namespace Timers

/-- Timers at power-on, both stopped. -/
def blank : Timers :=
  ⟨0, 0⟩

/-- One less, and zero stays zero. -/
def countDown (t : UInt8) : UInt8 :=
  if t = 0 then 0 else t - 1

/-- Whether the next tick ends the tone. -/
def endsTone (t : Timers) : Bool :=
  t.sound == 1

/-- Whether a tone sounds. -/
def sounding (t : Timers) : Bool :=
  t.sound != 0

/-- Counts both timers down. -/
def tick (t : Timers) : Timers :=
  ⟨countDown t.delay, countDown t.sound⟩

/-- Ticks `n` times; also the numbers of the ticks that ended a tone, counted from zero. -/
def ticks (t : Timers) (n : Nat) : Timers × List Nat :=
  n.fold (fun i _ (now, ended) =>
    (now.tick, if now.endsTone then ended ++ [i] else ended)) (t, [])

/-- A timer after a tick is one less, and at least zero. -/
theorem toNat_countDown (t : UInt8) : (countDown t).toNat = t.toNat - 1 := by
  unfold countDown
  split
  · subst_vars
    rfl
  · rename_i h
    have h0 : t.toNat ≠ 0 := fun e => h (UInt8.toNat_inj.1 e)
    have h1 : (1 : UInt8) ≤ t := by
      rw [UInt8.le_iff_toNat_le]
      exact Nat.one_le_iff_ne_zero.2 h0
    rw [UInt8.toNat_sub_of_le _ _ h1]
    rfl

end Timers

end Chip8
