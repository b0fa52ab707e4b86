import Chip8.Proofs.Cycle

/-!
# When a cycle fails

The fault of a cycle as a table that reads the digits of the raw word, the bounds of memory and the
height of the stack. The rows stand in the order in which a cycle meets its faults: the fetch, the
list of instructions, and last what the instruction needs.

* `exists_ofWord?_iff`: the words that are decoded are the listed ones.
* `result_eq_error_iff`: a cycle fails with the fault of the table, and only then.
* `execute_fails_exactly`: each fault and its condition, and success in every other case.
-/

namespace Chip8

namespace Word

/-- **The words that are instructions**, told by the digits of their numbers. -/
def Listed (w : Nat) : Prop :=
  match w / 0x1000 with
  | 0x0 => w = 0x00E0 ∨ w = 0x00EE
  | 0x1 | 0x2 | 0x3 | 0x4 | 0x6 | 0x7 | 0xA | 0xB | 0xC | 0xD => True
  | 0x5 | 0x9 => w % 0x10 = 0x0
  | 0x8 => w % 0x10 ≤ 0x7 ∨ w % 0x10 = 0xE
  | 0xE => w % 0x100 ∈ [0x9E, 0xA1]
  | 0xF => w % 0x100 ∈ [0x07, 0x0A, 0x15, 0x18, 0x1E, 0x29, 0x33, 0x55, 0x65]
  | _ => False

instance : DecidablePred Listed := fun w => by
  unfold Listed
  split <;> infer_instance

/-- How many bytes of memory from `I` on a word reads or stores, if it does. -/
def blockLength? (w : Nat) : Option Nat :=
  match w / 0x1000, w % 0x100 with
  | 0xD, _ => some (w % 0x10)
  | 0xF, 0x33 => some 3
  | 0xF, 0x55 => some (w / 0x100 % 0x10 + 1)
  | 0xF, 0x65 => some (w / 0x100 % 0x10 + 1)
  | _, _ => none

end Word

open Word

namespace Machine

/-- The number of the word at the program counter, high byte first. -/
def wordNumber (m : Machine) : Nat :=
  (m.memory.byteAt m.pc).toNat * 0x100 + (m.memory.byteAt (m.pc + 1)).toNat

/-- The fault of a block at `I` that reaches beyond memory. -/
def blockFault? (m : Machine) (len : Nat) : Option Fault :=
  if memorySize < m.registers.index.toNat + len then
    some (.memory (.outOfBounds m.registers.index.toNat len))
  else none

/-- What a listed word needs and does not find: a call to come back from, room for one more call,
or a block inside memory. -/
def wordFault? (m : Machine) (w : Nat) : Option Fault :=
  if w = 0x00EE then
    if m.stack.depth = 0 then some (.stack .empty) else none
  else if w / 0x1000 = 0x2 then
    if m.stack.depth = stackDepth then some (.stack .full) else none
  else (blockLength? w).bind m.blockFault?

/-- **The fault that a cycle meets**, if it meets one. -/
def fault? (m : Machine) : Option Fault :=
  if memorySize < m.pc + instructionSize then
    some (.memory (.outOfBounds m.pc instructionSize))
  else if Listed m.wordNumber then m.wordFault? m.wordNumber
  else some (.opcode ⟨m.wordNumber.toUInt16⟩)

end Machine

namespace Instruction

variable {m m' : Machine} {w : Word} {i : Instruction} {step : Step} {signal : Signal}
  {log : List Record} {e : Fault}

section Digits

variable {f x y k : Nat}

theorem addressCode_div (hk : k < 0x1000) : addressCode f k / 0x1000 = f := by
  simp only [addressCode]
  omega

theorem constCode_div (hx : x < 0x10) (hk : k < 0x100) : constCode f x k / 0x1000 = f := by
  simp only [constCode]
  omega

theorem constCode_mod (hk : k < 0x100) : constCode f x k % 0x100 = k := by
  simp only [constCode]
  omega

theorem constCode_digit (hx : x < 0x10) (hk : k < 0x100) :
    constCode f x k / 0x100 % 0x10 = x := by
  simp only [constCode]
  omega

theorem pairCode_div (hx : x < 0x10) (hy : y < 0x10) (hk : k < 0x10) :
    pairCode f x y k / 0x1000 = f := by
  simp only [pairCode]
  omega

theorem pairCode_mod (hk : k < 0x10) : pairCode f x y k % 0x10 = k := by
  simp only [pairCode]
  omega

end Digits

/-- The number of an instruction is listed. -/
theorem listed_code (hi : i.Fits) : Listed i.code := by
  unfold Listed
  cases i with
  | clear => exact .inl rfl
  | ret => exact .inr rfl
  | jump | call | loadIndex | jumpOffset =>
    rw [code, addressCode_div hi]
    trivial
  | skipIfConst x kk | skipUnlessConst x kk | load x kk | add x kk | random x kk =>
    rw [code, constCode_div hi kk.toNat_lt]
    trivial
  | skipIfEqual | skipUnlessEqual =>
    rw [code, pairCode_div hi.1 hi.2 (by decide)]
    exact pairCode_mod (by decide)
  | alu op =>
    have hn : op.nibble < 0x10 := by cases op <;> decide
    rw [code, pairCode_div hi.1 hi.2 hn]
    show _ % 0x10 ≤ 0x7 ∨ _ % 0x10 = 0xE
    rw [pairCode_mod hn]
    cases op <;> decide
  | draw =>
    rw [code, pairCode_div hi.1 hi.2.1 hi.2.2]
    trivial
  | skipIfPressed | skipUnlessPressed =>
    rw [code, constCode_div hi (by decide)]
    show _ % 0x100 ∈ _
    rw [constCode_mod (by decide)]
    decide
  | readDelay | awaitKey | setDelay | setSound | addIndex | loadGlyph | storeDecimal
  | storeRegisters | fetchRegisters =>
    rw [code, constCode_div hi (by decide)]
    show _ % 0x100 ∈ _
    rw [constCode_mod (by decide)]
    decide

/-- A word that is not decoded is not listed. -/
theorem not_listed_of_ofWord? (h : ofWord? w = none) : ¬ Listed w.toNat := by
  intro hl
  unfold ofWord? at h
  unfold Listed at hl
  rw [← Word.family_eq] at hl
  split at h
  case h_1 hf =>
    rw [hf] at hl
    split at h
    case h_1 | h_2 => cases h
    case h_3 hclear hret =>
      rw [Word.family_eq] at hf
      rw [Word.nnn_eq] at hclear hret
      rcases hl with hl | hl
      · exact hclear (by omega)
      · exact hret (by omega)
  case h_6 hf | h_10 hf =>
    rw [hf] at hl
    split at h
    · cases h
    · rename_i hn
      exact hn (w.n_eq.trans hl)
  case h_9 hf =>
    rw [hf] at hl
    have hn := Option.map_eq_none_iff.1 h
    change w.toNat % 0x10 ≤ 0x7 ∨ w.toNat % 0x10 = 0xE at hl
    rw [← Word.n_eq] at hl
    unfold Alu.ofNibble? at hn
    split at hn
    case h_10 => grind
    all_goals cases hn
  case h_15 hf =>
    rw [hf] at hl
    change w.toNat % 0x100 ∈ _ at hl
    rw [← Word.toNat_kk] at hl
    simp only [List.mem_cons, List.not_mem_nil, or_false] at hl
    split at h
    case h_3 => grind
    all_goals cases h
  case h_16 hf =>
    rw [hf] at hl
    change w.toNat % 0x100 ∈ _ at hl
    rw [← Word.toNat_kk] at hl
    simp only [List.mem_cons, List.not_mem_nil, or_false] at hl
    split at h
    case h_10 => grind
    all_goals cases h
  case h_17 =>
    have hlt : w.family < 0x10 := by
      rw [Word.family_eq]
      have hw := w.toNat_lt
      omega
    grind
  all_goals cases h

/-- **The words that are instructions** are the listed ones. -/
theorem exists_ofWord?_iff : (∃ i, ofWord? w = some i) ↔ Listed w.toNat := by
  constructor
  · rintro ⟨i, hi⟩
    obtain ⟨hfits, hcode⟩ := code_of_ofWord? hi
    rw [← hcode]
    exact listed_code hfits
  · intro h
    rcases hw : ofWord? w with _ | i
    · exact absurd h (not_listed_of_ofWord? hw)
    · exact ⟨i, rfl⟩

theorem ofWord?_ret (h : w.toNat = 0x00EE) : ofWord? w = some ret := by
  obtain rfl : w = 0x00EE := UInt16.toNat_inj.1 h
  rfl

theorem ofWord?_call (h : w.toNat / 0x1000 = 0x2) : ofWord? w = some (call w.nnn) := by
  rw [ofWord?, Word.family_eq, h]
  rfl

/-- A word with a block draws, or stores or fetches registers or digits. -/
theorem block_cases {len : Nat} (h : blockLength? w.toNat = some len) :
    (ofWord? w = some (draw w.x w.y w.n) ∧ len = w.n) ∨
    (ofWord? w = some (storeDecimal w.x) ∧ len = 3) ∨
    (ofWord? w = some (storeRegisters w.x) ∧ len = w.x + 1) ∨
    (ofWord? w = some (fetchRegisters w.x) ∧ len = w.x + 1) := by
  unfold blockLength? at h
  rw [ofWord?, Word.family_eq, Word.toNat_kk, Word.x_eq, Word.n_eq]
  split at h
  case h_1 hf =>
    rw [hf]
    exact .inl ⟨rfl, (Option.some.inj h).symm⟩
  case h_2 hf hk =>
    rw [hf, hk]
    exact .inr (.inl ⟨rfl, (Option.some.inj h).symm⟩)
  case h_3 hf hk =>
    rw [hf, hk]
    exact .inr (.inr (.inl ⟨rfl, (Option.some.inj h).symm⟩))
  case h_4 hf hk =>
    rw [hf, hk]
    exact .inr (.inr (.inr ⟨rfl, (Option.some.inj h).symm⟩))
  case h_5 => cases h

/-- An instruction that is performed has found what its word needs. -/
theorem wordFault?_of_performs (hw : ofWord? w = some i)
    (h : Performs m i m' step signal log) : m.wordFault? w.toNat = none := by
  unfold Machine.wordFault?
  split
  · rename_i hret
    obtain rfl : i = ret := Option.some.inj (hw.symm.trans (ofWord?_ret hret))
    cases h with
    | ret hs => simp [Stack.depth, hs]
  split
  · rename_i hcall
    obtain rfl : i = call w.nnn := Option.some.inj (hw.symm.trans (ofWord?_call hcall))
    cases h with
    | call nnn hd => exact if_neg (Nat.ne_of_lt hd)
  rcases hb : blockLength? w.toNat with _ | len
  · rfl
  have hfits {len : Nat} (hn : m.registers.index.toNat + len ≤ memorySize) :
      m.blockFault? len = none := if_neg (Nat.not_lt_of_le hn)
  show m.blockFault? len = none
  rcases block_cases hb with ⟨hw', rfl⟩ | ⟨hw', rfl⟩ | ⟨hw', rfl⟩ | ⟨hw', rfl⟩ <;>
    obtain rfl := Option.some.inj (hw.symm.trans hw') <;> cases h
  all_goals exact hfits ‹_›

/-- An instruction that is refused meets the fault of its word. -/
theorem wordFault?_of_refuses (hi : i.Fits) (hdepth : m.stack.depth ≤ stackDepth)
    (h : Refuses m i e) : m.wordFault? i.code = some e := by
  have hbeyond {len : Nat} (hn : memorySize < m.registers.index.toNat + len) :
      m.blockFault? len = some (.memory (.outOfBounds m.registers.index.toNat len)) := if_pos hn
  -- which row of the table it is follows from the digits of the number
  have row {f : Nat} (hf : i.code / 0x1000 = f) (h0 : f ≠ 0x0) (h2 : f ≠ 0x2) :
      m.wordFault? i.code = (blockLength? i.code).bind m.blockFault? := by
    have hret : i.code ≠ 0x00EE := by omega
    have hcall : i.code / 0x1000 ≠ 0x2 := by omega
    rw [Machine.wordFault?, if_neg hret, if_neg hcall]
  cases h with
  | ret hs =>
    have hempty : m.stack.depth = 0 := by rw [Stack.depth, hs, List.length_nil]
    exact if_pos hempty
  | call nnn hd =>
    have hf : (call nnn).code / 0x1000 = 0x2 := addressCode_div hi
    have hret : (call nnn).code ≠ 0x00EE := by omega
    have hfull : m.stack.depth = stackDepth := Nat.le_antisymm hdepth hd
    rw [Machine.wordFault?, if_neg hret, if_pos hf, if_pos hfull]
  | @draw x y n hx hy hn =>
    have hf : (draw x y n).code / 0x1000 = 0xD := pairCode_div hi.1 hi.2.1 hi.2.2
    have hd : (draw x y n).code % 0x10 = n := pairCode_mod hi.2.2
    rw [row hf (by decide) (by decide), blockLength?, hf, hd]
    exact hbeyond hn
  | @storeDecimal x hx hn =>
    have hf : (storeDecimal x).code / 0x1000 = 0xF := constCode_div hx (by decide)
    have hk : (storeDecimal x).code % 0x100 = 0x33 := constCode_mod (by decide)
    rw [row hf (by decide) (by decide), blockLength?, hf, hk]
    exact hbeyond hn
  | @storeRegisters x hx hn =>
    have hf : (storeRegisters x).code / 0x1000 = 0xF := constCode_div hx (by decide)
    have hk : (storeRegisters x).code % 0x100 = 0x55 := constCode_mod (by decide)
    have hd : (storeRegisters x).code / 0x100 % 0x10 = x := constCode_digit hx (by decide)
    rw [row hf (by decide) (by decide), blockLength?, hf, hk, hd]
    exact hbeyond hn
  | @fetchRegisters x hn =>
    have hx : x < 0x10 := hi
    have hf : (fetchRegisters x).code / 0x1000 = 0xF := constCode_div hx (by decide)
    have hk : (fetchRegisters x).code % 0x100 = 0x65 := constCode_mod (by decide)
    have hd : (fetchRegisters x).code / 0x100 % 0x10 = x := constCode_digit hx (by decide)
    rw [row hf (by decide) (by decide), blockLength?, hf, hk, hd]
    exact hbeyond hn

end Instruction

namespace Machine

open Instruction

variable {m : Machine}

theorem wordNumber_of_readWord {w : Word} (h : m.memory.readWord m.pc = .ok w) :
    m.wordNumber = w.toNat ∧ ¬ memorySize < m.pc + instructionSize := by
  obtain ⟨hle, rfl⟩ := Memory.readWord_eq_ok_iff.1 h
  exact ⟨(Word.toNat_ofBytes _ _).symm, Nat.not_lt_of_le hle⟩

/-- The fault of a fetched word. -/
theorem fault?_of_readWord {w : Word} (h : m.memory.readWord m.pc = .ok w) :
    m.fault? = if Listed w.toNat then m.wordFault? w.toNat else some (.opcode ⟨w⟩) := by
  obtain ⟨hnumber, hin⟩ := wordNumber_of_readWord h
  have hw : w.toNat.toUInt16 = w := UInt16.ofNat_toNat
  rw [fault?, if_neg hin, hnumber, hw]

/-- **A cycle fails with the fault of the table**, and it succeeds if the table has none. -/
theorem fault?_of_executes {o : Outcome Signal} (hdepth : m.stack.depth ≤ stackDepth)
    (h : Executes m o) :
    (∃ e, o.result = .error e ∧ m.fault? = some e) ∨
      ∃ signal, o.result = .ok signal ∧ m.fault? = none := by
  cases h with
  | noWord hlt => exact .inl ⟨_, rfl, if_pos hlt⟩
  | unknown hw hd =>
    refine .inl ⟨_, rfl, ?_⟩
    rw [fault?_of_readWord hw, if_neg (not_listed_of_ofWord? hd)]
  | @refused w i e hw hd hr =>
    refine .inl ⟨_, rfl, ?_⟩
    have hi := decode_eq_ok_iff_ofWord?.1 hd
    obtain ⟨hfits, hcode⟩ := code_of_ofWord? hi
    rw [fault?_of_readWord hw, if_pos (exists_ofWord?_iff.1 ⟨i, hi⟩), ← hcode]
    exact wordFault?_of_refuses (m := { m with opcode := w }) hfits hdepth hr
  | @performed w i m' step signal log hw hd hp =>
    refine .inr ⟨_, rfl, ?_⟩
    have hi := decode_eq_ok_iff_ofWord?.1 hd
    rw [fault?_of_readWord hw, if_pos (exists_ofWord?_iff.1 ⟨i, hi⟩)]
    exact wordFault?_of_performs (m := { m with opcode := w }) hi hp

/-- **A cycle fails with the fault of the table**, and only then. -/
theorem result_eq_error_iff (hdepth : m.stack.depth ≤ stackDepth) {e : Fault} :
    (execute.run m).result = .error e ↔ m.fault? = some e := by
  rcases fault?_of_executes hdepth (executes m) with ⟨e', hr, hf⟩ | ⟨signal, hr, hf⟩
  · rw [hr, hf, Except.error.injEq, Option.some_inj]
  · rw [hr, hf]
    simp

theorem exists_result_eq_ok_iff (hdepth : m.stack.depth ≤ stackDepth) :
    (∃ signal, (execute.run m).result = .ok signal) ↔ m.fault? = none := by
  rcases fault?_of_executes hdepth (executes m) with ⟨e', hr, hf⟩ | ⟨signal, hr, hf⟩
  · rw [hr, hf]
    simp
  · rw [hr, hf]
    simp

theorem blockFault?_eq_some_iff {len : Nat} {e : Fault} :
    m.blockFault? len = some e ↔
      memorySize < m.registers.index.toNat + len ∧
        e = .memory (.outOfBounds m.registers.index.toNat len) := by
  unfold blockFault?
  split
  · rename_i h
    simp [h, eq_comm]
  · rename_i h
    simp [h]

/-- The rows of the table for a listed word. -/
theorem wordFault?_eq_some_iff {w : Nat} {e : Fault} :
    m.wordFault? w = some e ↔
      (w = 0x00EE ∧ m.stack.depth = 0 ∧ e = .stack .empty) ∨
      (w / 0x1000 = 0x2 ∧ m.stack.depth = stackDepth ∧ e = .stack .full) ∨
      ∃ len, blockLength? w = some len ∧ memorySize < m.registers.index.toNat + len ∧
        e = .memory (.outOfBounds m.registers.index.toNat len) := by
  unfold wordFault?
  -- a return and a call have no block
  split
  · subst w
    have hnone : blockLength? 0x00EE = none := rfl
    simp [hnone, eq_comm]
  rename_i hret
  split
  · rename_i hcall
    have hnone : blockLength? w = none := by
      rw [blockLength?, hcall]
      rfl
    simp [hret, hcall, hnone, eq_comm]
  · rename_i hcall
    simp only [hret, hcall, Option.bind_eq_some_iff, blockFault?_eq_some_iff, false_and, false_or]

theorem wordFault?_eq_none_iff {w : Nat} :
    m.wordFault? w = none ↔
      ¬ (w = 0x00EE ∧ m.stack.depth = 0) ∧
      ¬ (w / 0x1000 = 0x2 ∧ m.stack.depth = stackDepth) ∧
      ∀ len, blockLength? w = some len → m.registers.index.toNat + len ≤ memorySize := by
  rw [Option.eq_none_iff_forall_ne_some]
  simp only [ne_eq, wordFault?_eq_some_iff]
  constructor
  · intro h
    refine ⟨fun hret => h _ (.inl ⟨hret.1, hret.2, rfl⟩),
      fun hcall => h _ (.inr (.inl ⟨hcall.1, hcall.2, rfl⟩)), fun len hlen => ?_⟩
    exact Nat.le_of_not_lt fun hlt => h _ (.inr (.inr ⟨len, hlen, hlt, rfl⟩))
  · rintro ⟨hret, hcall, hblock⟩ e (⟨hw, hd, -⟩ | ⟨hw, hd, -⟩ | ⟨len, hlen, hlt, -⟩)
    · exact hret ⟨hw, hd⟩
    · exact hcall ⟨hw, hd⟩
    · exact Nat.not_lt_of_le (hblock len hlen) hlt

/-- **A cycle fails exactly when it must**, with the exact fault. The fetch fails if the word at the
program counter is not inside memory. A fetched word is refused if it is not listed. A listed word
fails if it returns from no call, calls with a full stack, or has a block at `I` that is not inside
memory. In every other case the cycle succeeds, and it never complains about a program. -/
theorem execute_fails_exactly (hdepth : m.stack.depth ≤ stackDepth) :
    ((execute.run m).result = .error (.memory (.outOfBounds m.pc 2)) ↔ 4096 < m.pc + 2) ∧
    (m.pc + 2 ≤ 4096 →
      ((execute.run m).result = .error (.opcode ⟨m.wordNumber.toUInt16⟩) ↔
        ¬ Listed m.wordNumber) ∧
      (Listed m.wordNumber →
        ((execute.run m).result = .error (.stack .empty) ↔
          m.wordNumber = 0x00EE ∧ m.stack.depth = 0) ∧
        ((execute.run m).result = .error (.stack .full) ↔
          m.wordNumber / 0x1000 = 0x2 ∧ m.stack.depth = 16) ∧
        (∀ len, (execute.run m).result =
            .error (.memory (.outOfBounds m.registers.index.toNat len)) ↔
          blockLength? m.wordNumber = some len ∧ 4096 < m.registers.index.toNat + len) ∧
        ((∃ signal, (execute.run m).result = .ok signal) ↔
          ¬ (m.wordNumber = 0x00EE ∧ m.stack.depth = 0) ∧
          ¬ (m.wordNumber / 0x1000 = 0x2 ∧ m.stack.depth = 16) ∧
          ∀ len, blockLength? m.wordNumber = some len →
            m.registers.index.toNat + len ≤ 4096))) ∧
    ∀ len capacity,
      (execute.run m).result ≠ .error (.memory (.programTooLarge len capacity)) := by
  simp only [ne_eq, result_eq_error_iff hdepth, exists_result_eq_ok_iff hdepth]
  rcases Nat.lt_or_ge memorySize (m.pc + instructionSize) with hout | hin
  · have hfault : m.fault? = some (.memory (.outOfBounds m.pc 2)) := if_pos hout
    refine ⟨⟨fun _ => hout, fun _ => hfault⟩, fun h => absurd hout (Nat.not_lt_of_le h), ?_⟩
    intro len capacity h
    rw [hfault] at h
    cases h
  have hfault : m.fault? = if Listed m.wordNumber then m.wordFault? m.wordNumber
      else some (.opcode ⟨m.wordNumber.toUInt16⟩) := if_neg (Nat.not_lt_of_le hin)
  have hin : m.pc + 2 ≤ 4096 := hin
  by_cases hl : Listed m.wordNumber
  · rw [if_pos hl] at hfault
    simp only [hfault, wordFault?_eq_some_iff, wordFault?_eq_none_iff]
    refine ⟨?_, fun _ => ⟨?_, fun _ => ⟨?_, ?_, fun len => ?_, trivial⟩⟩, fun len capacity => ?_⟩
    · -- a block at the program counter would begin inside memory and end there too
      constructor
      · rintro (⟨-, -, he⟩ | ⟨-, -, he⟩ | ⟨len, -, hlt, he⟩)
        · cases he
        · cases he
        · simp only [Fault.memory.injEq, Memory.Fault.outOfBounds.injEq] at he
          obtain ⟨hpc, rfl⟩ := he
          have hlt : 4096 < m.registers.index.toNat + 2 := hlt
          omega
      · intro hlt
        omega
    · simp [hl]
    · simp
    · simp
    · simp
    · simp
  · rw [if_neg hl] at hfault
    simp only [hfault]
    refine ⟨?_, fun _ => ⟨?_, fun h => absurd h hl⟩, fun len capacity h => ?_⟩
    · have hlt : ¬ 4096 < m.pc + 2 := Nat.not_lt_of_le hin
      simp [hlt]
    · simp [hl]
    · cases h

/-- A block of two bytes whose second byte is the first one beyond memory. -/
theorem execute_fails_exactly_block :
    let m := { boot (.repeating #[]) with
      memory := Memory.blank.poke programStart [0xF1, 0x55]
      registers := Registers.blank.setIndex 0xFFF }
    m.stack.depth ≤ stackDepth ∧ m.pc + 2 ≤ 4096 ∧ Listed m.wordNumber ∧
      (execute.run m).result = .error (.memory (.outOfBounds 0xFFF 2)) := by
  intro m
  have hw : m.memory.readWord (programStart + 0) = .ok (Word.ofBytes 0xF1 0x55) :=
    Memory.blank.readWord_poke (by decide) rfl rfl
  have hnumber : m.wordNumber = 0xF155 := (wordNumber_of_readWord hw).1
  have hdepth : m.stack.depth ≤ stackDepth := by decide
  have hin : m.pc + 2 ≤ 4096 := by decide
  have hlisted : Listed m.wordNumber := by
    rw [hnumber]
    decide
  obtain ⟨-, hrows, -⟩ := execute_fails_exactly hdepth
  obtain ⟨-, -, hblock, -⟩ := (hrows hin).2 hlisted
  refine ⟨hdepth, hin, hlisted, (hblock 2).2 ⟨?_, by decide⟩⟩
  rw [hnumber]
  rfl

end Machine

end Chip8
