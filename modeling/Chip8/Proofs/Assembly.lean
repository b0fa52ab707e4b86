import Chip8.Proofs.Faults
import Mathlib.Data.Set.Function

/-!
# Assembled programs

A program as a list of instructions. Assembled, it is the words of the instructions one after the
other, each with its high byte first, and so it is loaded and fetched again.

* `ofWord?_encode`: the word of an instruction is decoded to that instruction.
* `decode_eq_ok_iff_encode`, `decode_eq_error_iff_encode`: decoding undoes encoding, and refuses
  every word that no instruction has.
* `holds_poke_assemble`, `assemble_eq_of_holds`: stored instructions are fetched again, and
  assembling what is fetched gives back the stored bytes.
* `program_round_trip`: assembling, loading, fetching and decoding lead back to the program.
-/

namespace Chip8

namespace Word

/-- The byte of a word that is stored first. -/
def high (w : Word) : UInt8 :=
  (w >>> 8).toUInt8

/-- The byte of a word that is stored second. -/
def low (w : Word) : UInt8 :=
  w.toUInt8

theorem toNat_high (w : Word) : w.high.toNat = w.toNat / 0x100 := by
  have hw := w.toNat_lt
  have hshift : (w >>> 8).toNat = w.toNat / 0x100 := by
    rw [UInt16.toNat_shiftRight]
    exact Nat.shiftRight_eq_div_pow w.toNat 8
  rw [high, UInt16.toNat_toUInt8, hshift]
  omega

theorem toNat_low (w : Word) : w.low.toNat = w.toNat % 0x100 :=
  UInt16.toNat_toUInt8 w

/-- The two bytes of a word make the word. -/
theorem ofBytes_high_low (w : Word) : ofBytes w.high w.low = w := by
  rw [← UInt16.toNat_inj, toNat_ofBytes, toNat_high, toNat_low]
  omega

theorem high_ofBytes (b c : UInt8) : (ofBytes b c).high = b := by
  have hc := c.toNat_lt
  rw [← UInt8.toNat_inj, toNat_high, toNat_ofBytes]
  omega

theorem low_ofBytes (b c : UInt8) : (ofBytes b c).low = c := by
  have hc := c.toNat_lt
  rw [← UInt8.toNat_inj, toNat_low, toNat_ofBytes]
  omega

end Word

/-- The bytes of a program: the words of its instructions in order, high byte first. -/
def assemble (program : List Instruction) : List UInt8 :=
  program.flatMap fun i => [i.encode.high, i.encode.low]

/-- The word at an address is fetched, and stands for this instruction. -/
def Memory.Holds (m : Memory) (a : Nat) (i : Instruction) : Prop :=
  ∃ w, m.readWord a = .ok w ∧ Instruction.decode w = .ok i

theorem Alu.nibble_lt (op : Alu) : op.nibble < 0x10 := by
  cases op <;> decide

namespace Instruction

variable {w : Word} {i : Instruction}

section Parts

variable {f x y k : Nat}

/-- The parts of a word with an address. -/
theorem parts_of_addressCode (hw : w.toNat = addressCode f k) (hk : k < 0x1000) :
    w.family = f ∧ w.nnn = k := by
  rw [Word.family_eq, Word.nnn_eq, hw]
  simp only [addressCode]
  omega

/-- The parts of a word with a register and a constant. -/
theorem parts_of_constCode (hw : w.toNat = constCode f x k) (hx : x < 0x10) (hk : k < 0x100) :
    w.family = f ∧ w.x = x ∧ w.kk.toNat = k := by
  rw [Word.family_eq, Word.x_eq, Word.toNat_kk, hw]
  simp only [constCode]
  omega

/-- The parts of a word with two registers and a nibble. -/
theorem parts_of_pairCode (hw : w.toNat = pairCode f x y k) (hx : x < 0x10) (hy : y < 0x10)
    (hk : k < 0x10) : w.family = f ∧ w.x = x ∧ w.y = y ∧ w.n = k := by
  rw [Word.family_eq, Word.x_eq, Word.y_eq, Word.n_eq, hw]
  simp only [pairCode]
  omega

end Parts

/-- The number of an instruction whose operands fit is the number of a word. -/
theorem code_lt (h : i.Fits) : i.code < 0x10000 := by
  cases i with
  | clear | ret => decide
  | jump | call | loadIndex | jumpOffset =>
    have h : _ < 0x1000 := h
    simp only [code, addressCode]
    omega
  | skipIfConst x kk | skipUnlessConst x kk | load x kk | add x kk | random x kk =>
    have h : x < 0x10 := h
    have hk := kk.toNat_lt
    simp only [code, constCode]
    omega
  | skipIfEqual | skipUnlessEqual =>
    obtain ⟨hx, hy⟩ := h
    simp only [code, pairCode]
    omega
  | alu op =>
    obtain ⟨hx, hy⟩ := h
    have hn := op.nibble_lt
    simp only [code, pairCode]
    omega
  | draw =>
    obtain ⟨hx, hy, hn⟩ := h
    simp only [code, pairCode]
    omega
  | skipIfPressed x | skipUnlessPressed x | readDelay x | awaitKey x | setDelay x | setSound x
  | addIndex x | loadGlyph x | storeDecimal x | storeRegisters x | fetchRegisters x =>
    have h : x < 0x10 := h
    simp only [code, constCode]
    omega

theorem toNat_encode (h : i.Fits) : i.encode.toNat = i.code :=
  Nat.mod_eq_of_lt (code_lt h)

/-- **The word of an instruction** is decoded to that instruction. -/
theorem ofWord?_encode (h : i.Fits) : ofWord? i.encode = some i := by
  have hw := toNat_encode h
  generalize i.encode = w at hw
  cases i with
  | clear | ret =>
    obtain ⟨hf, hk⟩ := parts_of_addressCode hw (by decide)
    rw [ofWord?, hf, hk]
    rfl
  | jump nnn | call nnn | loadIndex nnn | jumpOffset nnn =>
    obtain ⟨hf, hk⟩ := parts_of_addressCode hw h
    rw [ofWord?, hf, hk]
    rfl
  | skipIfConst x kk | skipUnlessConst x kk | load x kk | add x kk | random x kk =>
    obtain ⟨hf, hx, hk⟩ := parts_of_constCode hw h kk.toNat_lt
    rw [ofWord?, hf, hx, UInt8.toNat_inj.1 hk]
    rfl
  | skipIfEqual x y | skipUnlessEqual x y =>
    obtain ⟨hf, hx, hy, hn⟩ := parts_of_pairCode hw h.1 h.2 (by decide)
    rw [ofWord?, hf, hx, hy, hn]
    rfl
  | alu op x y =>
    obtain ⟨hf, hx, hy, hn⟩ := parts_of_pairCode hw h.1 h.2 op.nibble_lt
    rw [ofWord?, hf, hx, hy, hn, Alu.ofNibble?_nibble]
    rfl
  | draw x y n =>
    obtain ⟨hf, hx, hy, hn⟩ := parts_of_pairCode hw h.1 h.2.1 h.2.2
    rw [ofWord?, hf, hx, hy, hn]
    rfl
  -- the low byte names the instruction
  | skipIfPressed x | skipUnlessPressed x | readDelay x | awaitKey x | setDelay x | setSound x
  | addIndex x | loadGlyph x | storeDecimal x | storeRegisters x | fetchRegisters x =>
    obtain ⟨hf, hx, hk⟩ := parts_of_constCode hw h (by decide)
    rw [ofWord?, hf, hx, hk]
    rfl

/-- **Decoding undoes encoding**: a word is decoded to an instruction exactly if it is the word of
that instruction, and the operands fit. -/
theorem decode_eq_ok_iff_encode : decode w = .ok i ↔ i.Fits ∧ i.encode = w := by
  rw [decode_eq_ok_iff_ofWord?]
  constructor
  · intro h
    obtain ⟨hfits, hcode⟩ := code_of_ofWord? h
    refine ⟨hfits, ?_⟩
    rw [encode, hcode, UInt16.ofNat_toNat]
  · rintro ⟨hfits, rfl⟩
    exact ofWord?_encode hfits

/-- **Decoding refuses a word** exactly if no instruction has it. -/
theorem decode_eq_error_iff_encode {e : UnknownOpcode} :
    decode w = .error e ↔ (∀ i : Instruction, i.Fits → i.encode ≠ w) ∧ e = ⟨w⟩ := by
  rw [decode_eq_error_iff, Option.eq_none_iff_forall_ne_some]
  refine and_congr_left fun _ => forall_congr' fun i => ?_
  rw [ne_eq, ← decode_eq_ok_iff_ofWord?, decode_eq_ok_iff_encode, not_and]

/-- Encoding matches the instructions whose operands fit and the words that are decoded, one to
one. -/
theorem bijOn_encode : Set.BijOn encode {i | i.Fits} {w | ∃ i, decode w = .ok i} := by
  refine ⟨fun i hi => ⟨i, decode_eq_ok_iff_encode.2 ⟨hi, rfl⟩⟩, fun i hi j hj h => ?_, ?_⟩
  · -- both instructions are what their common word is decoded to
    have hi := decode_eq_ok_iff_encode.2 ⟨hi, rfl⟩
    have hj := decode_eq_ok_iff_encode.2 ⟨hj, rfl⟩
    rw [h, hj] at hi
    exact (Except.ok.inj hi).symm
  · rintro w ⟨i, hi⟩
    exact ⟨i, decode_eq_ok_iff_encode.1 hi⟩

end Instruction

open Instruction

theorem length_assemble (program : List Instruction) :
    (assemble program).length = 2 * program.length := by
  induction program with
  | nil => rfl
  | cons i program ih =>
    have hcons : (assemble (i :: program)).length = (assemble program).length + 2 := rfl
    rw [hcons, ih, List.length_cons]
    omega

/-- The two bytes of an assembled instruction. -/
theorem getElem?_assemble (program : List Instruction) (k : Nat) :
    (assemble program)[2 * k]? = program[k]?.map (·.encode.high) ∧
      (assemble program)[2 * k + 1]? = program[k]?.map (·.encode.low) := by
  induction program generalizing k with
  | nil => exact ⟨rfl, rfl⟩
  | cons i program ih =>
    cases k with
    | zero => exact ⟨rfl, rfl⟩
    | succ k => exact ih k

/-- **Stored instructions are fetched again.** -/
theorem holds_poke_assemble (m : Memory) {a : Nat} {program : List Instruction}
    (hfits : ∀ i ∈ program, i.Fits) (ha : a + 2 * program.length ≤ memorySize) {k : Nat}
    (hk : k < program.length) : (m.poke a (assemble program)).Holds (a + 2 * k) program[k] := by
  obtain ⟨hhigh, hlow⟩ := getElem?_assemble program k
  rw [List.getElem?_eq_getElem hk] at hhigh hlow
  have hle : a + 2 * k + instructionSize ≤ memorySize := by
    simp only [instructionSize]
    omega
  refine ⟨_, m.readWord_poke hle hhigh hlow, ?_⟩
  rw [Word.ofBytes_high_low]
  exact decode_eq_ok_iff_encode.2 ⟨hfits _ (List.getElem_mem hk), rfl⟩

/-- **Assembling what is fetched** gives back the stored bytes. -/
theorem assemble_eq_of_holds {m : Memory} {a : Nat} {bytes : List UInt8}
    {program : List Instruction} (hlength : bytes.length = 2 * program.length)
    (h : ∀ k (hk : k < program.length), (m.poke a bytes).Holds (a + 2 * k) program[k]) :
    assemble program = bytes := by
  -- both bytes of a word, by the word that was fetched
  have word (k : Nat) (hk : k < program.length) :
      program[k].encode.high = bytes[2 * k] ∧ program[k].encode.low = bytes[2 * k + 1] := by
    obtain ⟨w, hw, hd⟩ := h k hk
    have hle := (Memory.readWord_eq_ok_iff.1 hw).1
    rw [m.readWord_poke hle (List.getElem?_eq_getElem (by omega))
      (List.getElem?_eq_getElem (by omega))] at hw
    rw [(decode_eq_ok_iff_encode.1 hd).2, ← Except.ok.inj hw, Word.high_ofBytes, Word.low_ofBytes]
    exact ⟨rfl, rfl⟩
  apply List.ext_getElem?
  intro j
  rcases Nat.lt_or_ge j bytes.length with hj | hj
  · obtain ⟨k, hk⟩ : ∃ k, j = 2 * k ∨ j = 2 * k + 1 := ⟨j / 2, by omega⟩
    have hlt : k < program.length := by omega
    obtain ⟨hhigh, hlow⟩ := getElem?_assemble program k
    obtain ⟨hhigh', hlow'⟩ := word k hlt
    rw [List.getElem?_eq_getElem hlt, Option.map_some] at hhigh hlow
    rcases hk with rfl | rfl
    · rw [hhigh, hhigh', List.getElem?_eq_getElem hj]
    · rw [hlow, hlow', List.getElem?_eq_getElem hj]
  · rw [List.getElem?_eq_none hj, List.getElem?_eq_none (by rw [length_assemble]; omega)]

/-- **Assembling, loading, fetching and decoding lead back to the program.** A program of up to 1792
instructions whose operands fit is loaded into any memory, and there the words from the program
start on are decoded to its instructions. A word is decoded to an instruction exactly if it is the
word of that instruction, and it is refused exactly if no instruction has it, so encoding matches
the two one to one. And whatever was loaded, assembling what it is decoded to gives back its
bytes. -/
theorem program_round_trip :
    (∀ (m : Memory) (program : List Instruction), program.length ≤ 1792 →
      (∀ i ∈ program, i.Fits) → ∃ m', m.load (assemble program) = .ok m' ∧
        ∀ k (hk : k < program.length), m'.Holds (0x200 + 2 * k) program[k]) ∧
    (∀ (w : Word) (i : Instruction), decode w = .ok i ↔ i.Fits ∧ i.encode = w) ∧
    (∀ (w : Word) (e : UnknownOpcode),
      decode w = .error e ↔ (∀ i : Instruction, i.Fits → i.encode ≠ w) ∧ e = ⟨w⟩) ∧
    Set.BijOn encode {i | i.Fits} {w | ∃ i, decode w = .ok i} ∧
    ∀ (m m' : Memory) (bytes : List UInt8) (program : List Instruction),
      m.load bytes = .ok m' → bytes.length = 2 * program.length →
      (∀ k (hk : k < program.length), m'.Holds (0x200 + 2 * k) program[k]) →
        assemble program = bytes := by
  refine ⟨fun m program hlength hfits => ?_, fun w i => decode_eq_ok_iff_encode,
    fun w e => decode_eq_error_iff_encode, bijOn_encode, fun m m' bytes program hload hlength h => ?_⟩
  · have hfree : 0x200 + 2 * program.length ≤ 4096 := by omega
    have hbytes : (assemble program).length ≤ 3584 := by
      rw [length_assemble]
      omega
    exact ⟨_, Memory.load_eq_ok_iff.2 ⟨hbytes, rfl⟩,
      fun k hk => holds_poke_assemble m hfits hfree hk⟩
  · obtain ⟨-, rfl⟩ := Memory.load_eq_ok_iff.1 hload
    exact assemble_eq_of_holds hlength h

/-- Four instructions, and a word that differs from one of theirs in its last digit. -/
theorem program_round_trip_four :
    let program := [draw 1 2 3, skipIfEqual 4 5, alu .shiftLeft 6 15, jump 0xABC]
    let bytes : List UInt8 := [0xD1, 0x23, 0x54, 0x50, 0x86, 0xFE, 0x1A, 0xBC]
    program.length ≤ 1792 ∧ (∀ i ∈ program, i.Fits) ∧
    (∃ m', Memory.blank.load (assemble program) = .ok m' ∧ m'.Holds 0x202 (skipIfEqual 4 5) ∧
      m'.Holds 0x206 (jump 0xABC)) ∧
    (∃ m', Memory.blank.load bytes = .ok m' ∧ bytes.length = 2 * program.length ∧
      (∀ k (hk : k < program.length), m'.Holds (0x200 + 2 * k) program[k]) ∧
      assemble program = bytes) ∧
    ∀ i : Instruction, i.Fits → i.encode ≠ 0x5451 := by
  intro program bytes
  obtain ⟨hload, -, hrefuse, -, hback⟩ := program_round_trip
  have hlength : program.length ≤ 1792 := by decide
  have hfits : ∀ i ∈ program, i.Fits := by decide
  obtain ⟨m', hm', hholds⟩ := hload Memory.blank program hlength hfits
  have hbytes : assemble program = bytes := by decide
  refine ⟨hlength, hfits, ⟨m', hm', hholds 1 (by decide), hholds 3 (by decide)⟩, ?_, ?_⟩
  · rw [hbytes] at hm'
    exact ⟨m', hm', rfl, hholds, hback _ _ _ _ hm' rfl hholds⟩
  · exact ((hrefuse 0x5451 ⟨0x5451⟩).1 rfl).1

end Chip8
