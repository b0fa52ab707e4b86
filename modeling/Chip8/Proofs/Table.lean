import Chip8.Proofs.Cycle
import Chip8.Proofs.Snapshot
import Mathlib.Data.Nat.Bitwise

/-!
# The instruction table

The reference table of the instruction set, in natural numbers. It reads the digits of the raw word
and acts on a snapshot of the machine.

* `rowOf_of_performs`: a rule of an instruction does what its row says.
* `table_iff_execute`: a cycle that succeeds does what the table says.
-/

namespace Chip8

namespace Snapshot

/-- The row of the table for `8XYn`: the result, and the flag if there is one. -/
def arithmetic (vx vy : Nat) : Nat → Option (Nat × Option Bool)
  | 0x0 => some (vy, none)
  | 0x1 => some (vx ||| vy, none)
  | 0x2 => some (vx &&& vy, none)
  | 0x3 => some (vx ^^^ vy, none)
  | 0x4 => some ((vx + vy) % 256, some (255 < vx + vy))
  | 0x5 => some ((256 + vx - vy) % 256, some (vy ≤ vx))
  | 0x6 => some (vx / 2, some (vx % 2 = 1))
  | 0x7 => some ((256 + vy - vx) % 256, some (vx ≤ vy))
  | 0xE => some (2 * vx % 256, some (128 ≤ vx))
  | _ => none

/-- The rows of the table for `EXkk`: whether the next instruction is passed over. A key beyond `F`
counts as not pressed. -/
def keySkip (s : Snapshot) (vx : Nat) : Nat → Option Bool
  | 0x9E => some (vx < 16 && s.pressed vx)
  | 0xA1 => some !(vx < 16 && s.pressed vx)
  | _ => none

/-- The rows of the table for `FXkk`. -/
def misc (s : Snapshot) (x : Nat) : Nat → Option (Snapshot × Signal)
  | 0x07 => some ((s.setV x s.delay).next, .nothing)
  | 0x0A => match (List.range 16).find? s.pressed with
    | none => some (s, .wait)
    | some key => some ((s.setV x key).next, .nothing)
  | 0x15 => some ({ s with delay := s.v x }.next, .nothing)
  | 0x18 => some ({ s with sound := s.v x }.next, .nothing)
  | 0x1E => some ({ s with i := (s.i + s.v x) % 4096 }.next, .nothing)
  | 0x29 => some ({ s with i := 5 * (s.v x % 16) }.next, .nothing)
  | 0x33 => some ((s.store s.i [s.v x / 100, s.v x / 10 % 10, s.v x % 10]).next, .nothing)
  | 0x55 => some ((s.store s.i ((List.range (x + 1)).map s.v)).next, .nothing)
  | 0x65 =>
    some ({ s with v := fun j => if j ≤ x then s.memory (s.i + j) else s.v j }.next, .nothing)
  | _ => none

/-- The rows of the table, all but the one that draws sprites: what the digits of a word make of a
snapshot, and what they ask of the host. -/
def row (op x y n kk nnn : Nat) (s : Snapshot) : Option (Snapshot × Signal) :=
  match op with
  | 0x0 => match nnn with
    | 0x0E0 => some ({ s with lit := fun _ => false }.next, .redraw)
    | 0x0EE => s.stack.getLast?.map fun e =>
      ({ s with stack := s.stack.dropLast, pc := e + 2 }, .nothing)
    | _ => none
  | 0x1 => some ({ s with pc := nnn }, .nothing)
  | 0x2 => some ({ s with stack := s.stack ++ [s.pc], pc := nnn }, .nothing)
  | 0x3 => some (s.skipIf (s.v x = kk), .nothing)
  | 0x4 => some (s.skipIf (s.v x ≠ kk), .nothing)
  | 0x5 => if n = 0 then some (s.skipIf (s.v x = s.v y), .nothing) else none
  | 0x6 => some ((s.setV x kk).next, .nothing)
  | 0x7 => some ((s.setV x ((s.v x + kk) % 256)).next, .nothing)
  | 0x8 => (arithmetic (s.v x) (s.v y) n).map fun
    | (a, none) => ((s.setV x a).next, .nothing)
    | (a, some flag) => (((s.setV x a).setFlag flag).next, .nothing)
  | 0x9 => if n = 0 then some (s.skipIf (s.v x ≠ s.v y), .nothing) else none
  | 0xA => some ({ s with i := nnn }.next, .nothing)
  | 0xB => some ({ s with pc := s.v 0 + nnn }, .nothing)
  | 0xC => some
    ({ s.setV x (kk &&& s.stream s.drawn) with drawn := s.drawn + 1 }.next, .nothing)
  | 0xE => (s.keySkip (s.v x) kk).map fun c => (s.skipIf c, .nothing)
  | 0xF => s.misc x kk
  | _ => none

/-- The row of a word, which is taken apart into its digits. -/
def rowOf (w : Nat) (s : Snapshot) : Option (Snapshot × Signal) :=
  row (w / 4096) (w / 256 % 16) (w / 16 % 16) (w % 16) (w % 256) (w % 4096) s

/-- **The instruction table** for a fetched word. -/
def table (w : Nat) (s : Snapshot) : Option (Snapshot × Signal) :=
  rowOf w { s with opcode := w }

end Snapshot

namespace Instruction

variable {m m' : Machine} {i : Instruction} {step : Step} {signal : Signal} {log : List Record}

open Snapshot

section Digits

variable {f x y k : Nat} {s : Snapshot}

theorem rowOf_addressCode (hk : k < 4096) :
    rowOf (addressCode f k) s = row f (k / 256) (k / 16 % 16) (k % 16) (k % 256) k s := by
  simp only [rowOf, addressCode]
  congr 1 <;> omega

theorem rowOf_constCode (hx : x < 16) (hk : k < 256) :
    rowOf (constCode f x k) s = row f x (k / 16) (k % 16) k (x * 256 + k) s := by
  simp only [rowOf, constCode]
  congr 1 <;> omega

theorem rowOf_pairCode (hx : x < 16) (hy : y < 16) (hk : k < 16) :
    rowOf (pairCode f x y k) s = row f x y k (y * 16 + k) (x * 256 + y * 16 + k) s := by
  simp only [rowOf, pairCode]
  congr 1 <;> omega

end Digits

theorem beq_eq_decide_toNat (a b : UInt8) : (a == b) = decide (a.toNat = b.toNat) := by
  rw [Bool.beq_eq_decide_eq, decide_eq_decide, UInt8.toNat_inj]

theorem bne_eq_decide_toNat (a b : UInt8) : (a != b) = decide (a.toNat ≠ b.toNat) := by
  rw [bne, beq_eq_decide_toNat, decide_not]

theorem skipIf_snapshot (c : Bool) :
    m.snapshot.skipIf c = { m.snapshot with pc := (Step.skipIf c).advance m.pc } := by
  rw [Step.advance_skipIf]
  rfl

/-- The row of an arithmetic word is the operation that its lowest nibble names. -/
theorem arithmetic_nibble (op : Alu) (a b : UInt8) :
    arithmetic a.toNat b.toNat op.nibble = some ((op.result a b).toNat, op.flag? a b) := by
  have ha := a.toNat_lt
  have hb := b.toNat_lt
  cases op with
  | assign => rfl
  | or | and | xor => simp [Alu.nibble, Alu.result, Alu.flag?, arithmetic]
  | add =>
    have hc : decide (255 < a.toNat + b.toNat) = decide (256 ≤ a.toNat + b.toNat) := rfl
    simp only [Alu.nibble, Alu.result, Alu.flag?, arithmetic, UInt8.toNat_add, hc]
  | sub =>
    have hd : (256 + a.toNat - b.toNat) % 256 = (2 ^ 8 - b.toNat + a.toNat) % 2 ^ 8 := by omega
    simp only [Alu.nibble, Alu.result, Alu.flag?, arithmetic, UInt8.toNat_sub, hd,
      UInt8.le_iff_toNat_le]
  | subReverse =>
    have hd : (256 + b.toNat - a.toNat) % 256 = (2 ^ 8 - a.toNat + b.toNat) % 2 ^ 8 := by omega
    simp only [Alu.nibble, Alu.result, Alu.flag?, arithmetic, UInt8.toNat_sub, hd,
      UInt8.le_iff_toNat_le]
  | shiftRight =>
    have hflag : (a &&& 0x01 != 0) = decide (a.toNat % 2 = 1) := by
      rw [bne_eq_decide_toNat, UInt8.toNat_and, show (0x01 : UInt8).toNat = 1 from rfl,
        Nat.and_one_is_mod]
      simp
    have hshift : (a >>> 1).toNat = a.toNat / 2 := by
      simp [Nat.shiftRight_eq_div_pow]
    simp only [Alu.nibble, Alu.result, Alu.flag?, arithmetic, hflag, hshift]
  | shiftLeft =>
    have hflag : (a &&& 0x80 != 0) = decide (128 ≤ a.toNat) := by
      rw [bne_eq_decide_toNat, UInt8.toNat_and, decide_eq_decide]
      show a.toNat &&& 2 ^ 7 ≠ 0 ↔ 128 ≤ a.toNat
      rw [Nat.and_two_pow, Nat.testBit_eq_decide_div_mod_eq]
      -- no bit of a byte is above this one
      by_cases h7 : a.toNat / 2 ^ 7 % 2 = 1
      · have hle : 128 ≤ a.toNat := by omega
        rw [decide_eq_true h7]
        simp [hle]
      · have hlt : ¬ 128 ≤ a.toNat := by omega
        rw [decide_eq_false h7]
        simp [hlt]
    have hshift : (a <<< 1).toNat = 2 * a.toNat % 256 := by
      simp [Nat.shiftLeft_eq, Nat.mul_comm]
    simp only [Alu.nibble, Alu.result, Alu.flag?, arithmetic, hflag, hshift]

/-- The registers after an operation: its flag stands in `VF` even if `VF` is also the target, but
for a shift into `VF`. -/
theorem snapshot_writes (op : Alu) {x : Nat} (hx : x < registerCount) (a b : UInt8)
    (hshift : op.flagFirst → x ≠ flagRegister) :
    ({ m with registers := m.registers.writeAll (op.writes x a b) } : Machine).snapshot =
      match op.flag? a b with
      | none => m.snapshot.setV x (op.result a b).toNat
      | some flag => (m.snapshot.setV x (op.result a b).toNat).setFlag flag := by
  rcases hflag : op.flag? a b with _ | flag
  · have hw : op.writes x a b = [(x, op.result a b)] := by
      simp [Alu.writes, hflag]
    rw [hw]
    exact m.snapshot_write hx (op.result a b)
  by_cases hfirst : op.flagFirst
  · have hw : op.writes x a b = [(flagRegister, flag.toUInt8), (x, op.result a b)] := by
      simp [Alu.writes, hflag, hfirst]
    have hne : flagRegister ≠ x := (hshift hfirst).symm
    rw [hw]
    show Machine.snapshot { m with registers := (m.registers.setFlag flag).write x _ } = _
    rw [Machine.snapshot_write { m with registers := m.registers.setFlag flag } hx,
      m.snapshot_setFlag]
    exact setV_comm _ hne _ _
  · have hw : op.writes x a b = [(x, op.result a b), (flagRegister, flag.toUInt8)] := by
      simp [Alu.writes, hflag, hfirst]
    rw [hw]
    show Machine.snapshot { m with registers := (m.registers.write x _).setFlag flag } = _
    rw [Machine.snapshot_setFlag { m with registers := m.registers.write x _ },
      m.snapshot_write hx]

/-- A rule of an instruction does what its row says. -/
theorem rowOf_of_performs (h : Performs m i m' step signal log) (hi : i.Fits)
    (hpc : m.pc < UInt16.size) (hdraw : ∀ x y n, i ≠ draw x y n)
    (hshift : ∀ op y, i = alu op flagRegister y → ¬ op.flagFirst) :
    rowOf i.code m.snapshot = some ({ m'.snapshot with pc := step.advance m.pc }, signal) := by
  cases h with
  | clear =>
    have hlit : Screen.blank.isLit = fun _ => false := funext Screen.isLit_blank
    rw [code, rowOf_addressCode (by decide)]
    simp only [Machine.snapshot, hlit]
    rfl
  | @ret a rest hs =>
    have hstack := m.snapshot_stack hs
    rw [code, rowOf_addressCode (by decide)]
    simp only [row, hstack, List.getLast?_concat, List.dropLast_concat]
    rfl
  | jump nnn =>
    rw [code, rowOf_addressCode hi]
    rfl
  | call nnn h =>
    have hpc : m.pc.toUInt16.toNat = m.pc := Nat.mod_eq_of_lt hpc
    rw [code, rowOf_addressCode hi, m.snapshot_push, hpc]
    rfl
  -- a skip compares bytes where the table compares their numbers
  | @skipIfConst x kk hx =>
    rw [code, rowOf_constCode hi kk.toNat_lt, ← skipIf_snapshot, beq_eq_decide_toNat]
    rfl
  | @skipUnlessConst x kk hx =>
    rw [code, rowOf_constCode hi kk.toNat_lt, ← skipIf_snapshot, bne_eq_decide_toNat]
    rfl
  | @skipIfEqual x y hx hy =>
    rw [code, rowOf_pairCode hi.1 hi.2 (by decide), ← skipIf_snapshot, beq_eq_decide_toNat]
    rfl
  | @skipUnlessEqual x y hx hy =>
    rw [code, rowOf_pairCode hi.1 hi.2 (by decide), ← skipIf_snapshot, bne_eq_decide_toNat]
    rfl
  | @load x kk hx =>
    rw [code, rowOf_constCode hi kk.toNat_lt, m.snapshot_write hx]
    rfl
  | @add x kk hx =>
    rw [code, rowOf_constCode hi kk.toNat_lt, m.snapshot_write hx, UInt8.toNat_add]
    rfl
  | @alu op x y hx hy =>
    have hn : op.nibble < 16 := by cases op <;> decide
    have harith : arithmetic (m.snapshot.v x) (m.snapshot.v y) op.nibble = _ :=
      arithmetic_nibble op (m.registers.valueAt x) (m.registers.valueAt y)
    rw [code, rowOf_pairCode hi.1 hi.2 hn,
      snapshot_writes op hx _ _ fun hop h => hshift op y (h ▸ rfl) hop]
    simp only [row, harith]
    rcases op.flag? (m.registers.valueAt x) (m.registers.valueAt y) with _ | flag <;> rfl
  | loadIndex nnn =>
    have hnnn : nnn < 4096 := hi
    have hindex : nnn.toUInt16.toNat % 4096 = nnn := by
      show nnn % 2 ^ 16 % 4096 = nnn
      omega
    rw [code, rowOf_addressCode hi, m.snapshot_setIndex, hindex]
    rfl
  | jumpOffset nnn =>
    rw [code, rowOf_addressCode hi]
    rfl
  | @random x kk hx =>
    have hwrite := Machine.snapshot_write { m with random := m.random.advance } hx
      (kk &&& m.random.peek)
    rw [UInt8.toNat_and] at hwrite
    rw [code, rowOf_constCode hi kk.toNat_lt]
    simp only [hwrite]
    rfl
  | draw => exact absurd rfl (hdraw _ _ _)
  | @skipIfPressed x hx =>
    rw [code, rowOf_constCode hi (by decide), ← skipIf_snapshot, m.keypad.isPressed_eq]
    rfl
  | @skipUnlessPressed x hx =>
    rw [code, rowOf_constCode hi (by decide), ← skipIf_snapshot, m.keypad.isPressed_eq]
    rfl
  | @readDelay x hx =>
    rw [code, rowOf_constCode hi (by decide), m.snapshot_write hx]
    rfl
  | awaitNoKey x hnone =>
    have hfind : (List.range 16).find? m.snapshot.pressed = none :=
      m.keypad.lowestPressed_eq_find? ▸ hnone
    rw [code, rowOf_constCode hi (by decide)]
    simp only [row, misc, hfind]
    rfl
  | @awaitKey x key hx hkey =>
    have hfind : (List.range 16).find? m.snapshot.pressed = some key :=
      m.keypad.lowestPressed_eq_find? ▸ hkey
    have hlt : key < 16 := List.mem_range.1 (List.mem_of_find?_eq_some hfind)
    have hkey : key.toUInt8.toNat = key := Nat.mod_eq_of_lt (by omega)
    rw [code, rowOf_constCode hi (by decide), m.snapshot_write hx, hkey]
    simp only [row, misc, hfind]
    rfl
  | @setDelay x hx | @setSound x hx =>
    rw [code, rowOf_constCode hi (by decide)]
    rfl
  | @addIndex x hx =>
    -- the sum may wrap at sixteen bits, but its low twelve bits are the same
    have hsum : (m.registers.index + (m.registers.valueAt x).toUInt16).toNat % 4096 =
        (m.registers.index.toNat + (m.registers.valueAt x).toNat) % 4096 := by
      rw [UInt16.toNat_add, UInt8.toNat_toUInt16]
      omega
    rw [code, rowOf_constCode hi (by decide), m.snapshot_setIndex, hsum]
    rfl
  | @loadGlyph x hx =>
    have hglyph : (glyphAddress (m.registers.valueAt x)).toUInt16.toNat % 4096 =
        5 * ((m.registers.valueAt x).toNat % 16) := by
      show (0 + 5 * (m.registers.valueAt x &&& 0xF).toNat) % 2 ^ 16 % 4096 = _
      rw [UInt8.toNat_and, show (0xF : UInt8).toNat = 2 ^ 4 - 1 from rfl,
        Nat.and_two_pow_sub_one_eq_mod]
      omega
    rw [code, rowOf_constCode hi (by decide), m.snapshot_setIndex, hglyph]
    rfl
  | @storeDecimal x hx h =>
    rw [code, rowOf_constCode hi (by decide), m.snapshot_poke h]
    rfl
  | @storeRegisters x hx h =>
    have hvalues : (m.registers.upTo x).map UInt8.toNat =
        (List.range (x + 1)).map m.snapshot.v := List.map_map
    have hlen : m.registers.index.toNat + (m.registers.upTo x).length ≤ memorySize := by
      rwa [Registers.length_upTo]
    rw [code, rowOf_constCode hi (by decide), m.snapshot_poke hlen, hvalues]
    rfl
  | @fetchRegisters x hx h =>
    rw [code, rowOf_constCode hi (by decide), m.snapshot_fill hx]
    rfl

end Instruction

namespace Machine

open Instruction Snapshot

/-- **A cycle that succeeds does what the table says** of the fetched word, and nothing else: the
table gives exactly the machine and the signal that the cycle leaves. Sprites, and shifts whose
target is `VF`, are not in question. -/
theorem table_iff_execute {m : Machine} {w : Word} {signal : Signal}
    (hw : m.memory.readWord m.pc = .ok w) (hdraw : w.toNat / 4096 ≠ 0xD)
    (hshift : ¬ (w.toNat / 256 = 0x8F ∧ (w.toNat % 16 = 0x6 ∨ w.toNat % 16 = 0xE)))
    (hok : (execute.run m).result = .ok signal) (m' : Machine) (signal' : Signal) :
    table w.toNat m.snapshot = some (m'.snapshot, signal') ↔
      (execute.run m).machine = m' ∧ signal = signal' := by
  obtain ⟨w', i, m₁, step, log, hw', hd, hp, hrun⟩ := performed_of_ok hok
  obtain rfl : w = w' := Except.ok.inj (hw.symm.trans hw')
  obtain ⟨hfits, hcode⟩ := code_of_ofWord? (decode_eq_ok_iff_ofWord?.1 hd)
  -- a fetched address fits into a stack entry
  have hle : m.pc + 2 ≤ 4096 := (Memory.readWord_eq_ok_iff.1 hw).1
  have hpc : m.pc < UInt16.size := show m.pc < 65536 by omega
  have hrow := rowOf_of_performs hp hfits hpc (fun x y n hi => ?_) (fun op y hi hop => ?_)
  · have htable : table w.toNat m.snapshot =
        some ((execute.run m).machine.snapshot, signal) := by
      rw [hcode] at hrow
      rw [hrun]
      exact hrow
    rw [htable, Option.some_inj, Prod.mk.injEq]
    exact and_congr_left' ⟨snapshot_injective, congrArg snapshot⟩
  · subst hi
    obtain ⟨hx, hy, hn⟩ : x < 16 ∧ y < 16 ∧ n < 16 := hfits
    have hcode : 13 * 4096 + x * 256 + y * 16 + n = w.toNat := hcode
    exact hdraw (by omega)
  · subst hi
    have hy : y < 16 := hfits.2
    have hcode : 8 * 4096 + 15 * 256 + y * 16 + op.nibble = w.toNat := hcode
    have hn : op.nibble = 6 ∨ op.nibble = 14 := by
      cases op with
      | shiftRight => exact .inl rfl
      | shiftLeft => exact .inr rfl
      | _ => cases hop
    exact hshift ⟨by omega, by omega⟩

/-- A sum with a carry. -/
theorem table_iff_execute_carry :
    let m := { boot (.repeating #[]) with
      memory := Memory.blank.poke programStart [0x80, 0x14]
      registers := (Registers.blank.write 0 200).write 1 100 }
    (execute.run m).result = .ok .nothing ∧
      table 0x8014 m.snapshot = some ((execute.run m).machine.snapshot, .nothing) ∧
      (execute.run m).machine.snapshot.v 0 = 44 ∧ (execute.run m).machine.snapshot.v 0xF = 1 := by
  intro m
  have hw : m.memory.readWord (programStart + 0) = .ok (Word.ofBytes 0x80 0x14) :=
    Memory.blank.readWord_poke (by decide) rfl rfl
  have hx := run_of_executes (.performed hw (i := alu .add 0 1) rfl
    (.alu .add (by decide) (by decide)))
  have hok : (execute.run m).result = .ok .nothing := by rw [hx]
  refine ⟨hok, ?_, ?_, ?_⟩
  · exact (table_iff_execute hw (by decide) (by decide) hok _ _).2 ⟨rfl, rfl⟩
  · rw [hx]
    decide
  · rw [hx]
    decide

end Machine

end Chip8
