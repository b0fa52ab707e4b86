/-!
# Instruction words

An instruction is a word of sixteen bits, stored with the high byte first. Its four nibbles are
called `T X Y N`: `T` names the family, and the others are operands alone (`X`, `Y`, `N`) or
together (`KK`, the low byte, and `NNN`, the low twelve bits).

* `family_eq`, `nnn_eq`, `x_eq`, `y_eq`, `n_eq`, `toNat_kk`: the parts as quotients and remainders.
* `toNat_ofBytes`: the number of a word of two bytes.
-/

namespace Chip8

/-- An instruction word. -/
abbrev Word := UInt16

namespace Word

/-- The word with the given high and low byte. -/
def ofBytes (high low : UInt8) : Word :=
  high.toUInt16 <<< 8 ||| low.toUInt16

/-- The highest nibble, which names the family of the instruction. -/
def family (w : Word) : Nat :=
  (w >>> 12).toNat

/-- The low twelve bits, an address. -/
def nnn (w : Word) : Nat :=
  (w &&& 0x0FFF).toNat

/-- The second nibble, a register. -/
def x (w : Word) : Nat :=
  ((w &&& 0x0F00) >>> 8).toNat

/-- The third nibble, a register. -/
def y (w : Word) : Nat :=
  ((w &&& 0x00F0) >>> 4).toNat

/-- The lowest nibble. -/
def n (w : Word) : Nat :=
  (w &&& 0x000F).toNat

/-- The low byte, a constant. -/
def kk (w : Word) : UInt8 :=
  (w &&& 0x00FF).toUInt8

theorem family_eq (w : Word) : w.family = w.toNat / 0x1000 := by
  simp [family, Nat.shiftRight_eq_div_pow]

theorem nnn_eq (w : Word) : w.nnn = w.toNat % 0x1000 := by
  simp only [nnn, UInt16.toNat_and]
  exact Nat.and_two_pow_sub_one_eq_mod w.toNat 12

theorem x_eq (w : Word) : w.x = w.toNat / 0x100 % 0x10 := by
  simp only [x, UInt16.toNat_shiftRight, UInt16.toNat_and]
  rw [Nat.shiftRight_and_distrib, Nat.shiftRight_eq_div_pow w.toNat]
  exact Nat.and_two_pow_sub_one_eq_mod (w.toNat / 0x100) 4

theorem y_eq (w : Word) : w.y = w.toNat / 0x10 % 0x10 := by
  simp only [y, UInt16.toNat_shiftRight, UInt16.toNat_and]
  rw [Nat.shiftRight_and_distrib, Nat.shiftRight_eq_div_pow w.toNat]
  exact Nat.and_two_pow_sub_one_eq_mod (w.toNat / 0x10) 4

theorem n_eq (w : Word) : w.n = w.toNat % 0x10 := by
  simp only [n, UInt16.toNat_and]
  exact Nat.and_two_pow_sub_one_eq_mod w.toNat 4

theorem toNat_kk (w : Word) : w.kk.toNat = w.toNat % 0x100 := by
  simp only [kk, UInt16.toNat_toUInt8, UInt16.toNat_and]
  exact (congrArg (· % 2 ^ 8) (Nat.and_two_pow_sub_one_eq_mod w.toNat 8)).trans (Nat.mod_mod _ _)

theorem toNat_ofBytes (high low : UInt8) :
    (ofBytes high low).toNat = high.toNat * 0x100 + low.toNat := by
  have hh := high.toNat_lt
  have hl := low.toNat_lt
  have hs : high.toNat <<< 8 < 2 ^ 16 := by
    rw [Nat.shiftLeft_eq]
    omega
  simp only [ofBytes, UInt16.toNat_or, UInt16.toNat_shiftLeft, UInt8.toNat_toUInt16]
  rw [show (8 : UInt16).toNat % 16 = 8 from rfl, Nat.mod_eq_of_lt hs,
    ← Nat.shiftLeft_add_eq_or_of_lt hl, Nat.shiftLeft_eq]

end Word

end Chip8
