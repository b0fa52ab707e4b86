import Chip8.Parameters

/-!
# Call stack

Addresses of calls that have not returned yet. There is room for sixteen.
-/

namespace Chip8

/-- The addresses of the open calls, the newest first. -/
structure Stack where
  entries : List UInt16
deriving DecidableEq

namespace Stack

/-- Why the stack refuses an operation. -/
inductive Fault where
  /-- There is no room for another address. -/
  | full
  /-- There is no address to take. -/
  | empty
deriving DecidableEq

/-- The text of a fault. -/
def Fault.message : Fault → String
  | full => "Stack is full!"
  | empty => "Stack is empty!"

/-- The stack at power-on. -/
def blank : Stack :=
  ⟨[]⟩

/-- The number of addresses. -/
def depth (s : Stack) : Nat :=
  s.entries.length

/-- Puts an address on top. -/
def push (s : Stack) (address : UInt16) : Except Fault Stack :=
  if s.depth < stackDepth then .ok ⟨address :: s.entries⟩ else .error .full

/-- Takes the address on top. -/
def pop (s : Stack) : Except Fault (UInt16 × Stack) :=
  match s.entries with
  | [] => .error .empty
  | address :: rest => .ok (address, ⟨rest⟩)

/-- All addresses, the oldest first. -/
def toList (s : Stack) : List UInt16 :=
  s.entries.reverse

end Stack

end Chip8
