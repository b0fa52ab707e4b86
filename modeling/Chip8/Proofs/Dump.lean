import Chip8.Dump
import Chip8.Proofs.Numeral
import Mathlib.Data.List.TakeWhile

/-!
# Reading the dump back

A line of the dump shows the first and the last address of its bytes, and the bytes themselves
unless they are a run of zeros. So the numbers in a line are enough to give its bytes back, and the
lines one after the other give all of memory.

* `numbers_text`: the numbers in a line.
* `readLine_text`: a line that stands for any bytes is read as these bytes.
* `flatMap_bytes_lines`: collapsing runs of zeros drops no byte.
* `flatMap_readLine_dump`: the dump is read as the bytes of memory.
-/

namespace Chip8

/-- The elements of a table in the order of their numbers. -/
theorem toList_eq_map_range {n : Nat} (v : Vector UInt8 n) :
    v.toList = (List.range n).map fun i => v[i]?.getD 0 := by
  apply List.ext_getElem
  · simp
  · intro i hi _
    have hlt : i < n := by simpa using hi
    simp [hlt]

/-- Rows of equal length, one after the other. -/
theorem flatten_map_range {α : Type} (f : Nat → α) (count size : Nat) :
    ((List.range count).map fun r => (List.range size).map fun i => f (r * size + i)).flatten =
      (List.range (count * size)).map f := by
  induction count with
  | zero => simp
  | succ count ih =>
    rw [List.range_succ, List.map_append, List.flatten_append, ih, Nat.succ_mul, List.range_add]
    simp

namespace Dump

/-- The bytes that a line stands for. -/
def Line.bytes : Line → List UInt8
  | row _ bytes => bytes
  | zeros _ count => List.replicate (count * rowSize) 0

/-- The bytes that a line shows behind its addresses. -/
def Line.shown : Line → List UInt8
  | row _ bytes => bytes
  | zeros _ _ => []

/-- Reads a line of the dump back. Without bytes behind the addresses it stands for zeros. -/
def readLine (line : List Char) : List UInt8 :=
  match Numeral.numbers 16 line with
  | [first, last] => List.replicate (last + 1 - first) 0
  | _ :: _ :: bytes => bytes.map UInt8.ofNat
  | _ => []

section Line

variable (l : Line)

theorem numbers_bytesText (bytes : List UInt8) :
    Numeral.numbers 16 (bytesText bytes).toList = bytes.map UInt8.toNat := by
  rw [bytesText, String.toList_intercalate, Numeral.numbers_intercalate 16 (by decide),
    List.map_map, List.flatMap_map]
  simp only [Function.comp_apply, Numeral.numbers_hexDigits]
  exact List.map_eq_flatMap.symm

theorem numbers_content :
    Numeral.numbers 16 l.content.toList = l.shown.map UInt8.toNat := by
  cases l with
  | row _ bytes => exact numbers_bytesText bytes
  | zeros _ _ =>
    have hplain : Numeral.Plain filler.toList := by decide
    exact Numeral.numbers_append_plain 16 hplain []

/-- **The numbers in a line** are its addresses and the bytes that it shows. -/
theorem numbers_text :
    Numeral.numbers 16 l.text.toList = l.first :: l.last :: l.shown.map UInt8.toNat := by
  simp only [Line.text, String.toList_append, List.append_assoc]
  rw [Numeral.numbers_append 16 (by decide),
    Numeral.numbers_append 16 (by decide), Numeral.numbers_hex, Numeral.numbers_hex,
    numbers_content]
  rfl

variable {l}

/-- **A line that stands for any bytes** is read as these bytes. -/
theorem readLine_text (h : 0 < l.size) : readLine l.text.toList = l.bytes := by
  unfold readLine
  rw [numbers_text]
  cases l with
  | row address bytes =>
    cases bytes with
    | nil => cases h
    | cons b bytes =>
      have hsame : (b :: bytes).map (UInt8.ofNat ∘ UInt8.toNat) = b :: bytes :=
        List.map_id'' (fun c => UInt8.ofNat_toNat) _
      rw [← List.map_map] at hsame
      exact hsame
  | zeros address count =>
    have hsize : address + count * rowSize - 1 + 1 - address = count * rowSize := by
      have hpos : 0 < count * rowSize := h
      omega
    exact congrArg (List.replicate · 0) hsize

end Line

section Lines

variable {rows : List (List UInt8)}

theorem eq_replicate_of_isZeroRow {row : List UInt8} (h : isZeroRow row = true) :
    row = List.replicate row.length 0 := by
  refine List.eq_replicate_iff.2 ⟨rfl, fun b hb => ?_⟩
  exact beq_iff_eq.1 (List.all_eq_true.1 h b hb)

/-- The zero rows at the start are as many as are counted. -/
theorem take_zeroRows (h : ∀ row ∈ rows, row.length = rowSize) :
    rows.take (zeroRows rows) = List.replicate (zeroRows rows) (List.replicate rowSize 0) := by
  have htake : rows.takeWhile isZeroRow = rows.take (zeroRows rows) :=
    List.prefix_iff_eq_take.1 (List.takeWhile_prefix isZeroRow)
  rw [← htake]
  refine List.eq_replicate_iff.2 ⟨rfl, fun row hrow => ?_⟩
  have hzero : isZeroRow row = true := List.mem_takeWhile_imp hrow
  rw [eq_replicate_of_isZeroRow hzero, h row (List.takeWhile_subset _ hrow)]

/-- **Collapsing runs of zeros** drops no byte. -/
theorem flatMap_bytes_lines (address : Nat) (h : ∀ row ∈ rows, row.length = rowSize) :
    (lines address rows).flatMap Line.bytes = rows.flatten := by
  induction address, rows using lines.induct with
  | case1 address => simp [lines]
  | case2 address row rest hrun ih =>
    have hrest := ih fun r hr => h r (List.mem_of_mem_drop hr)
    rw [lines_of_zeros address hrun, List.flatMap_cons, hrest, Line.bytes,
      ← List.flatten_replicate_replicate, ← take_zeroRows h, ← List.flatten_append,
      List.take_append_drop]
  | case3 address row rest hrow ih =>
    have hrest := ih fun r hr => h r (List.mem_cons_of_mem row hr)
    rw [lines_of_row address (Nat.lt_of_not_le hrow), List.flatMap_cons, hrest]
    rfl

/-- No line stands for nothing. -/
theorem size_pos_of_mem_lines {address : Nat} (h : ∀ row ∈ rows, row.length = rowSize) {l : Line}
    (hl : l ∈ lines address rows) : 0 < l.size := by
  induction address, rows using lines.induct with
  | case1 address => simp [lines] at hl
  | case2 address row rest hrun ih =>
    rw [lines_of_zeros address hrun, List.mem_cons] at hl
    rcases hl with rfl | hl
    · exact Nat.mul_pos (by omega) (by decide)
    · exact ih (fun r hr => h r (List.mem_of_mem_drop hr)) hl
  | case3 address row rest hrow ih =>
    rw [lines_of_row address (Nat.lt_of_not_le hrow), List.mem_cons] at hl
    rcases hl with rfl | hl
    · have hlength : row.length = rowSize := h row List.mem_cons_self
      show 0 < row.length
      rw [hlength]
      decide
    · exact ih (fun r hr => h r (List.mem_cons_of_mem row hr)) hl

end Lines

end Dump

namespace Memory

variable (m : Memory)

theorem length_of_mem_rows {row : List UInt8} (h : row ∈ m.rows) :
    row.length = Dump.rowSize := by
  obtain ⟨r, -, rfl⟩ := List.mem_map.1 h
  rw [List.length_map, List.length_range]

/-- The rows hold all bytes of memory. -/
theorem flatten_rows : m.rows.flatten = m.toList :=
  (flatten_map_range m.byteAt (memorySize / Dump.rowSize) Dump.rowSize).trans
    (toList_eq_map_range m.bytes).symm

/-- **The dump is read** as the bytes of memory. -/
theorem flatMap_readLine_dump :
    m.dump.flatMap (fun l => Dump.readLine l.text.toList) = m.toList := by
  have hread : m.dump.map (fun l => Dump.readLine l.text.toList) = m.dump.map Dump.Line.bytes := by
    apply List.map_congr_left
    intro l hl
    exact Dump.readLine_text (Dump.size_pos_of_mem_lines (fun _ => m.length_of_mem_rows) hl)
  rw [List.flatMap_def, hread, ← List.flatMap_def, dump,
    Dump.flatMap_bytes_lines 0 fun _ => m.length_of_mem_rows, flatten_rows]

end Memory

end Chip8
