import Chip8.Instruction.Decode

/-!
# Encoding

The word of an instruction, and the operands that a word has room for.

* `ofNibble?_nibble`: the nibble of an arithmetic operation names that operation.
-/

namespace Chip8

/-- The lowest nibble of the word of an arithmetic operation. -/
def Alu.nibble : Alu → Nat
  | assign => 0x0
  | or => 0x1
  | and => 0x2
  | xor => 0x3
  | add => 0x4
  | sub => 0x5
  | shiftRight => 0x6
  | subReverse => 0x7
  | shiftLeft => 0xE

namespace Instruction

/-- The number of a word with an address of twelve bits. -/
def addressCode (family nnn : Nat) : Nat :=
  family * 0x1000 + nnn

/-- The number of a word with a register and a constant. -/
def constCode (family x kk : Nat) : Nat :=
  family * 0x1000 + x * 0x100 + kk

/-- The number of a word with two registers and a nibble. -/
def pairCode (family x y n : Nat) : Nat :=
  family * 0x1000 + x * 0x100 + y * 0x10 + n

/-- The number of the word of an instruction. -/
def code : Instruction → Nat
  | clear => addressCode 0x0 0x0E0
  | ret => addressCode 0x0 0x0EE
  | jump nnn => addressCode 0x1 nnn
  | call nnn => addressCode 0x2 nnn
  | skipIfConst x kk => constCode 0x3 x kk.toNat
  | skipUnlessConst x kk => constCode 0x4 x kk.toNat
  | skipIfEqual x y => pairCode 0x5 x y 0
  | load x kk => constCode 0x6 x kk.toNat
  | add x kk => constCode 0x7 x kk.toNat
  | alu op x y => pairCode 0x8 x y op.nibble
  | skipUnlessEqual x y => pairCode 0x9 x y 0
  | loadIndex nnn => addressCode 0xA nnn
  | jumpOffset nnn => addressCode 0xB nnn
  | random x kk => constCode 0xC x kk.toNat
  | draw x y n => pairCode 0xD x y n
  | skipIfPressed x => constCode 0xE x 0x9E
  | skipUnlessPressed x => constCode 0xE x 0xA1
  | readDelay x => constCode 0xF x 0x07
  | awaitKey x => constCode 0xF x 0x0A
  | setDelay x => constCode 0xF x 0x15
  | setSound x => constCode 0xF x 0x18
  | addIndex x => constCode 0xF x 0x1E
  | loadGlyph x => constCode 0xF x 0x29
  | storeDecimal x => constCode 0xF x 0x33
  | storeRegisters x => constCode 0xF x 0x55
  | fetchRegisters x => constCode 0xF x 0x65

/-- The word of an instruction whose operands fit. -/
def encode (i : Instruction) : Word :=
  UInt16.ofNat i.code

/-- The operands fit into a word: registers and row counts into four bits, addresses into
twelve. -/
def Fits : Instruction → Prop
  | clear | ret => True
  | jump nnn | call nnn | loadIndex nnn | jumpOffset nnn => nnn < 0x1000
  | skipIfConst x _ | skipUnlessConst x _ | load x _ | add x _ | random x _ => x < 0x10
  | skipIfEqual x y | skipUnlessEqual x y | alu _ x y => x < 0x10 ∧ y < 0x10
  | draw x y n => x < 0x10 ∧ y < 0x10 ∧ n < 0x10
  | skipIfPressed x | skipUnlessPressed x | readDelay x | awaitKey x | setDelay x | setSound x
  | addIndex x | loadGlyph x | storeDecimal x | storeRegisters x | fetchRegisters x => x < 0x10

instance : DecidablePred Fits := fun i => by
  cases i <;> unfold Fits <;> infer_instance

end Instruction

/-- The nibble of an arithmetic operation names that operation. -/
theorem Alu.ofNibble?_nibble (op : Alu) : ofNibble? op.nibble = some op := by
  cases op <;> rfl

end Chip8
