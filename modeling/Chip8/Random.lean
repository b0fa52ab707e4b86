/-!
# Random source

An endless stream of bytes, handed out one after the other.
-/

namespace Chip8

/-- A stream of bytes, and how many of them were drawn. -/
structure RandomSource where
  bytes : Nat → UInt8
  drawn : Nat

namespace RandomSource

/-- The byte that is drawn next. -/
def peek (r : RandomSource) : UInt8 :=
  r.bytes r.drawn

/-- The source after one more byte was drawn. -/
def advance (r : RandomSource) : RandomSource :=
  { r with drawn := r.drawn + 1 }

/-- The given bytes over and over; zeros if there are none. -/
def repeating (bytes : Array UInt8) : RandomSource :=
  ⟨fun i => bytes[i % bytes.size]?.getD 0, 0⟩

end RandomSource

end Chip8
