import Chip8.Proofs.History
import Chip8.Proofs.InPlace

/-!
# The last writer

Calls that store bytes in memory, made one after the other on a new memory. Those that fit into
memory are carried out and the others are refused and change nothing, so each byte is the one that
the last call around it stored, or the byte that was there at power-on.

* `Call.run_eq`: a call is carried out exactly if its bytes fit, and otherwise tells why not.
* `Call.run_inPlace`: a call in place keeps all limits, and changes nothing if it is refused.
* `Call.byteAt_after`, `byteAt_afterCalls`: a byte after a call, and after many.
* `last_writer_wins`: what every further call does, and what every reader finds.
-/

namespace Chip8

/-- The result is a success exactly under the condition, and this fault otherwise. -/
structure Guarded {ε α : Type} (result : Except ε α) (condition : Prop) (fault : ε) : Prop where
  ok_iff : (∃ a, result = .ok a) ↔ condition
  error_of_not : ¬ condition → result = .error fault

theorem guarded_ite {ε α : Type} (condition : Prop) [Decidable condition] (a : α) (fault : ε) :
    Guarded (if condition then .ok a else .error fault) condition fault where
  ok_iff := by by_cases h : condition <;> simp [h]
  error_of_not h := if_neg h

namespace Memory

/-- A call that stores bytes. -/
inductive Call where
  | load (program : List UInt8)
  | write (address : Nat) (data : List UInt8)
  | writeByte (address : Nat) (value : UInt8)

namespace Call

/-- The memory that a call leaves, or why it is refused. -/
def run (m : Memory) : Call → Except Fault Memory
  | load program => m.load program
  | write address data => m.write address data
  | writeByte address value => m.writeByte address value

/-- The call on one memory, which it changes in place. -/
def inPlace : Call → InPlace Unit
  | load program => .load program
  | write address data => .store address data
  | writeByte address value => .store address [value]

/-- **A call in place** keeps all limits, and leaves the new memory, or the one that it met if it is
refused. -/
theorem run_inPlace (m : Memory) (c : Call) : c.inPlace.run m = some (m.settle (c.run m)) := by
  cases c with
  | load program => exact InPlace.run_load m program
  | write address data => exact InPlace.run_store m address data
  | writeByte address value => exact InPlace.run_store m address [value]

/-- The memory after a call in place, whatever its result. -/
def after (m : Memory) (c : Call) : Memory :=
  ((c.inPlace.run m).get (by rw [run_inPlace]; rfl)).2

theorem after_eq (m : Memory) (c : Call) : c.after m = (m.settle (c.run m)).2 := by
  simp only [after, run_inPlace, Option.get_some]

theorem after_of_error {m : Memory} {c : Call} {f : Fault} (h : c.run m = .error f) :
    c.after m = m := by
  rw [after_eq, h]
  rfl

/-- Where a call stores its first byte. -/
def start : Call → Nat
  | load _ => programStart
  | write address _ => address
  | writeByte address _ => address

/-- The bytes that a call stores. -/
def data : Call → List UInt8
  | load program => program
  | write _ data => data
  | writeByte _ value => [value]

/-- What a call that is refused reports. -/
def fault : Call → Fault
  | load program => .programTooLarge program.length programCapacity
  | write address data => .outOfBounds address data.length
  | writeByte address _ => .outOfBounds address 1

/-- All bytes of the call have their place in memory. -/
def Fits (c : Call) : Prop :=
  c.start + c.data.length ≤ memorySize

instance : DecidablePred Fits := fun c =>
  inferInstanceAs (Decidable (c.start + c.data.length ≤ memorySize))

/-- The byte that a call puts at an address, if it fits and reaches the address. -/
def byte? (address : Nat) (c : Call) : Option UInt8 :=
  if c.Fits ∧ c.start ≤ address then c.data[address - c.start]? else none

/-- **A call is carried out** exactly if it fits. -/
theorem run_eq (m : Memory) (c : Call) :
    c.run m = if c.Fits then .ok (m.poke c.start c.data) else .error c.fault := by
  cases c with
  | write | writeByte => rfl
  | load program =>
    -- the two checks of a load agree, so only the first one ever refuses it
    have hagree : (load program).Fits ↔ ¬ programCapacity < program.length := by
      show 0x200 + program.length ≤ 4096 ↔ ¬ 4096 - 0x200 < program.length
      omega
    show m.load program = _
    rw [Memory.load]
    by_cases hlarge : programCapacity < program.length
    · rw [if_pos hlarge, if_neg (fun hfits => hagree.1 hfits hlarge)]
      rfl
    · rw [if_neg hlarge, if_pos (hagree.2 hlarge)]
      exact m.write_of_le program (hagree.2 hlarge)

/-- **A byte after a call** is the one that the call put there, or the one before. -/
theorem byteAt_after (m : Memory) (c : Call) {i : Nat} (hi : i < memorySize) :
    (c.after m).byteAt i = (c.byte? i).getD (m.byteAt i) := by
  rw [after_eq, run_eq, byte?]
  by_cases hfits : c.Fits
  · simp only [hfits, if_true, true_and]
    show (m.poke c.start c.data).byteAt i = _
    rw [byteAt_poke _ _ _ _ hi]
    split <;> rfl
  · simp only [hfits, if_false, false_and]
    rfl

end Call

/-- The memory after calls made one after the other. -/
def afterCalls (m : Memory) : List Call → Memory
  | [] => m
  | c :: cs => (c.after m).afterCalls cs

/-- **The last word on a byte**: what the last call around it that fits put there, and if there is
none, the byte of the font or zero. -/
def lastByte (calls : List Call) (address : Nat) : UInt8 :=
  (calls.filterMap (Call.byte? address)).getLast?.getD (font[address]?.getD 0)

theorem afterCalls_append (m : Memory) (cs cs' : List Call) :
    m.afterCalls (cs ++ cs') = (m.afterCalls cs).afterCalls cs' := by
  induction cs generalizing m with
  | nil => rfl
  | cons c cs ih => exact ih _

theorem byteAt_afterCalls (m : Memory) (cs : List Call) {i : Nat} (hi : i < memorySize) :
    (m.afterCalls cs).byteAt i =
      (cs.filterMap (Call.byte? i)).getLast?.getD (m.byteAt i) := by
  induction cs generalizing m with
  | nil => rfl
  | cons c cs ih => rw [afterCalls, ih, c.byteAt_after m hi, getLast?_filterMap_cons]

theorem byteAt_blank {i : Nat} (hi : i < memorySize) : blank.byteAt i = font[i]?.getD 0 := by
  have hzero : byteAt ⟨Vector.replicate memorySize 0⟩ i = 0 := by simp [byteAt, hi]
  rw [blank, byteAt_poke _ _ _ _ hi, if_pos (Nat.zero_le i), Nat.sub_zero, hzero]

/-- Every byte of a new memory after any calls is the last word on it. -/
theorem byteAt_afterCalls_blank (calls : List Call) {i : Nat} (hi : i < memorySize) :
    (blank.afterCalls calls).byteAt i = lastByte calls i := by
  rw [byteAt_afterCalls _ _ hi, byteAt_blank hi, lastByte]

section Readers

variable (calls : List Call)

theorem read_afterCalls {a len : Nat} {bytes : List UInt8}
    (h : (blank.afterCalls calls).read a len = .ok bytes) :
    bytes = (List.range len).map fun i => lastByte calls (a + i) := by
  obtain ⟨hle, rfl⟩ := read_eq_ok_iff.1 h
  refine List.map_congr_left fun i hi => byteAt_afterCalls_blank calls ?_
  have hlt := List.mem_range.1 hi
  omega

theorem readByte_eq_ok_iff {m : Memory} {a : Nat} {b : UInt8} :
    m.readByte a = .ok b ↔ a < memorySize ∧ b = m.byteAt a := by
  rw [readByte]
  by_cases h : a + 1 ≤ memorySize
  · rw [if_pos h, Except.ok.injEq]
    exact ⟨fun hb => ⟨h, hb.symm⟩, fun hb => hb.2.symm⟩
  · rw [if_neg h]
    exact ⟨nofun, fun hb => absurd hb.1 h⟩

theorem readByte_afterCalls {a : Nat} {b : UInt8}
    (h : (blank.afterCalls calls).readByte a = .ok b) : b = lastByte calls a := by
  obtain ⟨hlt, rfl⟩ := readByte_eq_ok_iff.1 h
  exact byteAt_afterCalls_blank calls hlt

theorem readWord_afterCalls {a : Nat} {w : Word}
    (h : (blank.afterCalls calls).readWord a = .ok w) :
    w.toNat = 256 * (lastByte calls a).toNat + (lastByte calls (a + 1)).toNat := by
  obtain ⟨hle, rfl⟩ := readWord_eq_ok_iff.1 h
  have hlt : a + 1 < memorySize := hle
  rw [Word.toNat_ofBytes, byteAt_afterCalls_blank calls hlt,
    byteAt_afterCalls_blank calls (Nat.lt_of_succ_lt hlt), Nat.mul_comm]

end Readers

/-- **The last writer wins, inside exact bounds.** Make any calls on a new memory, with any addresses
and any numbers of bytes. A further `write` succeeds exactly if its range ends inside the 4096 bytes,
an empty range included, and a `load` exactly if its program has at most 3584 bytes, which is when it
fits behind the program start. A call that is refused reports its own range, or its length and the
capacity, and changes nothing. Readers fail exactly if their range leaves memory, and otherwise find
in each byte the last word on it. -/
theorem last_writer_wins (calls : List Call) :
    let m := blank.afterCalls calls
    (∀ a data, Guarded (m.write a data) (a + data.length ≤ 4096) (.outOfBounds a data.length)) ∧
    (∀ a value, Guarded (m.writeByte a value) (a + 1 ≤ 4096) (.outOfBounds a 1)) ∧
    (∀ program : List UInt8,
      Guarded (m.load program) (program.length ≤ 3584) (.programTooLarge program.length 3584) ∧
      (program.length ≤ 3584 ↔ ∃ m', m.write 0x200 program = .ok m')) ∧
    (∀ c : Call, ((∃ m', c.run m = .ok m') ↔ c.Fits) ∧
      ((∃ f, c.run m = .error f) → blank.afterCalls (calls ++ [c]) = m)) ∧
    (∀ a len, Guarded (m.read a len) (a + len ≤ 4096) (.outOfBounds a len) ∧
      ∀ bytes, m.read a len = .ok bytes →
        bytes = (List.range len).map fun i => lastByte calls (a + i)) ∧
    (∀ a, Guarded (m.readByte a) (a + 1 ≤ 4096) (.outOfBounds a 1) ∧
      ∀ b, m.readByte a = .ok b → b = lastByte calls a) ∧
    ∀ a, Guarded (m.readWord a) (a + 2 ≤ 4096) (.outOfBounds a 2) ∧
      ∀ w, m.readWord a = .ok w →
        w.toNat = 256 * (lastByte calls a).toNat + (lastByte calls (a + 1)).toNat := by
  intro m
  have hcall (c : Call) : Guarded (c.run m) c.Fits c.fault := by
    rw [c.run_eq]
    exact guarded_ite _ _ _
  have hwrite (a : Nat) (data : List UInt8) :
      Guarded (m.write a data) (a + data.length ≤ 4096) (.outOfBounds a data.length) :=
    hcall (.write a data)
  refine ⟨hwrite, fun a value => hcall (.writeByte a value), fun program => ⟨?_, ?_⟩,
    fun c => ⟨(hcall c).ok_iff, ?_⟩, fun a len => ⟨guarded_ite _ _ _, fun _ => read_afterCalls calls⟩,
    fun a => ⟨guarded_ite _ _ _, fun _ => readByte_afterCalls calls⟩,
    fun a => ⟨guarded_ite _ _ _, fun _ => readWord_afterCalls calls⟩⟩
  · have hload := hcall (.load program)
    have hcapacity : (Call.load program).Fits ↔ program.length ≤ 3584 := by
      show 0x200 + program.length ≤ 4096 ↔ _
      omega
    exact ⟨hload.ok_iff.trans hcapacity, fun h => hload.error_of_not (mt hcapacity.1 h)⟩
  · have hfits : program.length ≤ 3584 ↔ 0x200 + program.length ≤ 4096 := by omega
    exact hfits.trans (hwrite 0x200 program).ok_iff.symm
  · rintro ⟨f, hf⟩
    rw [afterCalls_append]
    exact Call.after_of_error hf

end Memory

end Chip8
