import Chip8.Instruction.Encode
import Chip8.Proofs.Rules

/-!
# Decoded words

What a word says about the instruction that it stands for.

* `code_of_ofWord?`: the word of a decoded instruction is the one that it was decoded from.
* `namesRegisters_of_decode`: a word names only registers that exist.
-/

namespace Chip8

namespace Alu

/-- The operation of a nibble has that nibble. -/
theorem nibble_of_ofNibble? {n : Nat} {op : Alu} (h : ofNibble? n = some op) : op.nibble = n := by
  unfold ofNibble? at h
  split at h <;> cases h <;> rfl

end Alu

namespace Instruction

variable {w : Word} {i : Instruction}

theorem decode_eq_ok_iff_ofWord? : decode w = .ok i ↔ ofWord? w = some i := by
  unfold decode
  cases ofWord? w <;> simp

theorem decode_eq_error_iff {e : UnknownOpcode} :
    decode w = .error e ↔ ofWord? w = none ∧ e = ⟨w⟩ := by
  unfold decode
  cases ofWord? w <;> simp [eq_comm]

section Parts

variable {f k : Nat}

theorem addressCode_eq (hf : w.family = f) (hk : w.nnn = k) : addressCode f k = w.toNat := by
  simp only [addressCode, ← hf, ← hk, Word.family_eq, Word.nnn_eq]
  omega

theorem constCode_eq (hf : w.family = f) (hk : w.kk.toNat = k) : constCode f w.x k = w.toNat := by
  simp only [constCode, ← hf, ← hk, Word.family_eq, Word.x_eq, Word.toNat_kk]
  omega

theorem pairCode_eq (hf : w.family = f) (hk : w.n = k) : pairCode f w.x w.y k = w.toNat := by
  simp only [pairCode, ← hf, ← hk, Word.family_eq, Word.x_eq, Word.y_eq, Word.n_eq]
  omega

end Parts

/-- **The word of a decoded instruction** is the one that it was decoded from, and the operands
fit. -/
theorem code_of_ofWord? (h : ofWord? w = some i) : i.Fits ∧ i.code = w.toNat := by
  have hnnn : w.nnn < 0x1000 := by rw [Word.nnn_eq]; omega
  have hx : w.x < 0x10 := by rw [Word.x_eq]; omega
  have hy : w.y < 0x10 := by rw [Word.y_eq]; omega
  have hn : w.n < 0x10 := by rw [Word.n_eq]; omega
  unfold ofWord? at h
  split at h
  -- the system words
  case h_1 hf =>
    split at h <;> cases h <;> rename_i hk <;> exact ⟨trivial, addressCode_eq hf hk⟩
  case h_2 hf | h_3 hf | h_11 hf | h_12 hf => cases h; exact ⟨hnnn, addressCode_eq hf rfl⟩
  case h_4 hf | h_5 hf | h_7 hf | h_8 hf | h_13 hf => cases h; exact ⟨hx, constCode_eq hf rfl⟩
  case h_6 hf | h_10 hf =>
    split at h <;> cases h
    rename_i h0
    exact ⟨⟨hx, hy⟩, pairCode_eq hf h0⟩
  case h_9 hf =>
    obtain ⟨op, hop, rfl⟩ := Option.map_eq_some_iff.1 h
    exact ⟨⟨hx, hy⟩, pairCode_eq hf (Alu.nibble_of_ofNibble? hop).symm⟩
  case h_14 hf => cases h; exact ⟨⟨hx, hy, hn⟩, pairCode_eq hf rfl⟩
  -- the families whose low byte names the instruction
  case h_15 hf | h_16 hf =>
    split at h <;> cases h <;> rename_i hk <;> exact ⟨hx, constCode_eq hf hk⟩
  case h_17 => cases h

theorem fits_of_decode (h : decode w = .ok i) : i.Fits :=
  (code_of_ofWord? (decode_eq_ok_iff_ofWord?.1 h)).1

theorem namesRegisters_of_fits (h : i.Fits) : i.NamesRegisters := by
  intro r hr
  cases i <;> simp only [registers, List.mem_cons, List.not_mem_nil, or_false] at hr <;>
    simp only [Fits] at h <;> simp only [registerCount] <;> omega

/-- A word names only registers that exist. -/
theorem namesRegisters_of_decode (h : decode w = .ok i) : i.NamesRegisters :=
  namesRegisters_of_fits (fits_of_decode h)

end Instruction

end Chip8
