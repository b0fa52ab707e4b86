import Chip8.Proofs.Dump
import Mathlib.Data.List.Chain
import Mathlib.Data.List.Forall2

/-!
# The dump tiles memory

The lines of the dump are tiles, each of one or more whole rows of memory. Laid one after the other
they cover memory from the first row to the last. A tile of several rows is a maximal run of zero
rows, and a tile of one row may be a zero row only if it stands alone.

* `tiled_lines`: the lines from any row on tile what is left of memory.
* `Tiled.isChain_first`, `Tiled.isChain_zeroSpan`: how neighbouring tiles meet.
* `Numeral.hex_four`, `Numeral.hexDigits_two`: the characters of an address and of a byte.
* `Tile.shows`: what a line shows, character by character.
* `dump_tiles`: the whole dump.
-/

namespace Chip8

namespace Numeral

/-- The sixteen digits in ascending order. -/
def capitals : List Char :=
  ['0', '1', '2', '3', '4', '5', '6', '7', '8', '9', 'A', 'B', 'C', 'D', 'E', 'F']

/-- The lowest hexadecimal digit of a number. -/
def hexChar (n : Nat) : Char :=
  capitals.get ⟨n % 16, Nat.mod_lt n (by decide)⟩

/-- A byte as two digits, the high one first. -/
def byteText (b : UInt8) : String :=
  String.ofList [hexChar (b.toNat / 16), hexChar b.toNat]

/-- An address of sixteen bits as four digits behind `0x`, the highest one first. -/
def addressText (a : Nat) : String :=
  String.ofList ['0', 'x', hexChar (a / 4096), hexChar (a / 256), hexChar (a / 16), hexChar a]

theorem digit_eq_hexChar : ∀ {d : Nat}, d < 16 → digit d = hexChar d := by
  decide

theorem hexChar_mod (n : Nat) : hexChar (n % 16) = hexChar n := by
  simp only [hexChar, Nat.mod_mod]

theorem padLeft_append_singleton (width : Nat) (s : List Char) (c : Char) :
    padLeft (width + 1) (s ++ [c]) = padLeft width s ++ [c] := by
  rw [padLeft, padLeft, List.length_append, List.length_singleton, Nat.add_sub_add_right,
    List.append_assoc]

/-- The last digit of a padded numeral, and the others. -/
theorem padLeft_digits_succ {width : Nat} (hw : 0 < width) (n : Nat) :
    padLeft (width + 1) (digits 16 n) = padLeft width (digits 16 (n / 16)) ++ [hexChar n] := by
  have hdigit : digit (n % 16) = hexChar n := by
    rw [digit_eq_hexChar (Nat.mod_lt n (by decide)), hexChar_mod]
  rcases Nat.lt_or_ge n 16 with hlt | hle
  · -- the number has one digit, and the others are zeros from the padding
    obtain ⟨k, rfl⟩ : ∃ k, width = k + 1 := ⟨width - 1, by omega⟩
    have hzeros : padLeft (k + 1) (digits 16 0) = List.replicate (k + 1) '0' := by
      rw [digits_of_lt (by decide), List.replicate_succ']
      rfl
    have hone : digits 16 n = [] ++ [hexChar n] := by
      rw [digits_of_lt hlt, ← hdigit, Nat.mod_eq_of_lt hlt]
      rfl
    rw [hone, padLeft_append_singleton, Nat.div_eq_of_lt hlt, hzeros]
    exact congrArg (· ++ [hexChar n]) (List.append_nil _)
  · rw [digits_of_le (by decide) hle, padLeft_append_singleton, hdigit]

theorem padLeft_digits_one {n : Nat} (h : n < 16) : padLeft 1 (digits 16 n) = [hexChar n] := by
  rw [digits_of_lt h, digit_eq_hexChar h]
  rfl

/-- **A byte** is written as its two digits. -/
theorem hexDigits_two (b : UInt8) : hexDigits 2 b.toNat = byteText b := by
  have hb : b.toNat < 256 := b.toNat_lt
  rw [hexDigits, padLeft_digits_succ (by decide), padLeft_digits_one (by omega)]
  rfl

/-- **An address** is written as its four digits behind `0x`. -/
theorem hex_four {a : Nat} (h : a < 65536) : hex 4 a = addressText a := by
  have h256 : a / 16 / 16 = a / 256 := Nat.div_div_eq_div_mul a 16 16
  have h4096 : a / 256 / 16 = a / 4096 := Nat.div_div_eq_div_mul a 256 16
  rw [hex, hexDigits, padLeft_digits_succ (by decide), padLeft_digits_succ (by decide),
    padLeft_digits_succ (by decide), padLeft_digits_one (by omega), h256, h4096, addressText,
    ← String.toList_inj]
  simp only [String.toList_append, String.toList_ofList]
  rfl

theorem length_byteText (b : UInt8) : (byteText b).length = 2 := by
  rw [byteText, String.length_ofList]
  rfl

theorem length_addressText (a : Nat) : (addressText a).length = 6 := by
  rw [addressText, String.length_ofList]
  rfl

end Numeral

namespace Memory

/-- Rows of memory. -/
abbrev rowCount : Nat := memorySize / Dump.rowSize

variable (m : Memory)

/-- The bytes of a row. -/
def row (r : Nat) : List UInt8 :=
  (List.range Dump.rowSize).map fun i => m.byteAt (r * Dump.rowSize + i)

/-- All bytes of a row are zero. -/
def ZeroRow (r : Nat) : Prop :=
  ∀ i, i < Dump.rowSize → m.byteAt (r * Dump.rowSize + i) = 0

/-- All bytes from one address up to another are zero. -/
def ZeroSpan (first last : Nat) : Prop :=
  ∀ a, first ≤ a → a ≤ last → m.byteAt a = 0

/-- **A maximal run of zero rows**: `count` of them from row `r` on, with no zero row before and none
behind. -/
structure ZeroRun (r count : Nat) : Prop where
  inside : r + count ≤ rowCount
  zero : ∀ k, r ≤ k → k < r + count → m.ZeroRow k
  before : ∀ k, k + 1 = r → ¬ m.ZeroRow k
  behind : r + count < rowCount → ¬ m.ZeroRow (r + count)

/-- Three dots with twenty-two blanks on both sides. -/
def dots : String :=
  "                      ...                      "

/-- The addresses in front of a line. -/
def heading (range : Nat × Nat) : String :=
  Numeral.addressText range.1 ++ " - " ++ Numeral.addressText range.2 ++ " : "

/-- The sixteen bytes of a row, with a blank between them. -/
def rowText (r : Nat) : String :=
  " ".intercalate ((List.range 16).map fun i => Numeral.byteText (m.byteAt (r * 16 + i)))

/-- **A line of the dump shows a range** of addresses, from the first to the last. -/
structure Shows (range : Nat × Nat) (text : String) : Prop where
  /-- The line has the dots exactly if the range is a maximal run of at least two zero rows. -/
  dots_iff : text = heading range ++ dots ↔
    ∃ r count, m.ZeroRun r count ∧ 2 ≤ count ∧ range.1 = r * 16 ∧ range.2 + 1 = (r + count) * 16
  /-- Every other line has the bytes of one row, which is all of the range. -/
  row_of_ne : text ≠ heading range ++ dots →
    ∃ r, range = (r * 16, r * 16 + 15) ∧ text = heading range ++ m.rowText r
  length_eq : text.length = 65

variable {m}

theorem rows_eq_map_row : m.rows = (List.range rowCount).map m.row :=
  rfl

theorem isZeroRow_row_iff {r : Nat} : Dump.isZeroRow (m.row r) = true ↔ m.ZeroRow r := by
  simp [Dump.isZeroRow, row, ZeroRow]

theorem zeroRow_of_zeroSpan {r last : Nat} (h : m.ZeroSpan (r * Dump.rowSize) last)
    (hlast : (r + 1) * Dump.rowSize ≤ last + 1) : m.ZeroRow r := by
  intro i hi
  simp only [Dump.rowSize] at *
  exact h _ (by omega) (by omega)

/-- The zero rows that are counted from row `r` on: they are zero, and the row behind them is
not. -/
theorem zeroRows_spec {r : Nat} (hr : r ≤ rowCount) :
    r + Dump.zeroRows (m.rows.drop r) ≤ rowCount ∧
      (∀ k, r ≤ k → k < r + Dump.zeroRows (m.rows.drop r) → m.ZeroRow k) ∧
      (r + Dump.zeroRows (m.rows.drop r) < rowCount →
        ¬ m.ZeroRow (r + Dump.zeroRows (m.rows.drop r))) := by
  let rows := m.rows.drop r
  have hlength : rows.length = rowCount - r := by
    simp [rows, rows_eq_map_row]
  have hget (k : Nat) (hk : k < rows.length) : rows[k] = m.row (r + k) := by
    simp [rows, rows_eq_map_row]
  -- the count is the place of the first row that is not zero
  have hcount : Dump.zeroRows rows = rows.findIdx fun row => !Dump.isZeroRow row := by
    rw [Dump.zeroRows, List.takeWhile_eq_take_findIdx_not, List.length_take]
    exact Nat.min_eq_left List.findIdx_le_length
  have hle : Dump.zeroRows rows ≤ rows.length := hcount ▸ List.findIdx_le_length
  refine ⟨?_, fun k hk hlt => ?_, fun hlt => ?_⟩
  · show r + Dump.zeroRows rows ≤ rowCount
    omega
  · obtain ⟨j, rfl⟩ : ∃ j, k = r + j := ⟨k - r, by omega⟩
    have hj : j < rows.findIdx fun row => !Dump.isZeroRow row :=
      hcount ▸ Nat.lt_of_add_lt_add_left hlt
    have hzero := List.not_of_lt_findIdx hj
    rw [Bool.not_eq_false', hget] at hzero
    exact isZeroRow_row_iff.1 hzero
  · have hlt : Dump.zeroRows rows < rows.length := by
      have hlt : r + Dump.zeroRows rows < rowCount := hlt
      omega
    have hnot := List.findIdx_getElem (w := hcount ▸ hlt)
    simp only [← hcount] at hnot
    rw [Bool.not_eq_true', hget] at hnot
    intro hzero
    rw [isZeroRow_row_iff.2 hzero] at hnot
    cases hnot

end Memory

namespace Dump

open Memory

/-- The first and the last address of a line. -/
def Line.range (l : Line) : Nat × Nat :=
  (l.first, l.last)

variable {m : Memory} {r count : Nat} {l : Line} {ls : List Line}

/-- **A line is a tile** of `count` rows from row `r` on: a maximal run of at least two zero rows, or
one row, with its bytes, that is no zero row or the only one in its run. -/
inductive Tile (m : Memory) : Nat → Nat → Line → Prop
  | zeros {r count : Nat} (hcount : 2 ≤ count) (hrun : m.ZeroRun r count) :
    Tile m r count (.zeros (r * rowSize) count)
  | row {r : Nat} (hr : r < rowCount) (halone : m.ZeroRow r → m.ZeroRun r 1) :
    Tile m r 1 (.row (r * rowSize) (m.row r))

/-- **Lines tile memory** from row `r` on. -/
inductive Tiled (m : Memory) : Nat → List Line → Prop
  | nil : Tiled m rowCount []
  | cons {r count : Nat} {l : Line} {ls : List Line} (hl : Tile m r count l)
    (hls : Tiled m (r + count) ls) : Tiled m r (l :: ls)

/-- **The lines from any row on are tiles**, if no run of zeros is cut in two there. -/
theorem tiled_lines (hr : r ≤ rowCount)
    (hwhole : r < rowCount → m.ZeroRow r → ∀ k, k + 1 = r → ¬ m.ZeroRow k) :
    Tiled m r (lines (r * rowSize) (m.rows.drop r)) := by
  have hlength : m.rows.length = rowCount := by simp [rows_eq_map_row]
  -- on the rows that are left, for a line may take several of them
  induction hleft : rowCount - r using Nat.strongRecOn generalizing r with
  | ind left ih =>
    obtain ⟨hinside, hzero, hbehind⟩ := zeroRows_spec (m := m) hr
    rcases Nat.eq_or_lt_of_le hr with rfl | hlt
    · rw [List.drop_eq_nil_of_le (by omega), lines]
      exact .nil
    have hrow : m.rows.drop r = m.row r :: m.rows.drop (r + 1) := by
      rw [List.drop_eq_getElem_cons (hlength ▸ hlt)]
      simp [rows_eq_map_row]
    rcases Nat.lt_or_ge (zeroRows (m.rows.drop r)) 2 with hfew | hmany
    · have hone : m.ZeroRow r → zeroRows (m.rows.drop r) = 1 := by
        intro hzr
        have hpos : zeroRows (m.rows.drop r) ≠ 0 := by
          intro h0
          rw [h0, Nat.add_zero] at hbehind
          exact hbehind hlt hzr
        omega
      have halone : m.ZeroRow r → m.ZeroRun r 1 := by
        intro hzr
        rw [hone hzr] at hinside hzero hbehind
        exact ⟨hinside, hzero, hwhole hlt hzr, hbehind⟩
      have hnext : (r + 1) * rowSize = r * rowSize + (m.row r).length := by
        simp only [row, List.length_map, List.length_range, Nat.succ_mul]
      rw [hrow] at hfew ⊢
      rw [lines_of_row _ hfew, ← hnext]
      refine .cons (.row hlt halone) (ih _ (by omega) hlt (fun hlt' hzr' k hk hzk => ?_) rfl)
      obtain rfl : k = r := by omega
      exact (halone hzk).behind hlt' hzr'
    · have hrun : m.ZeroRun r (zeroRows (m.rows.drop r)) :=
        ⟨hinside, hzero, hwhole hlt (hzero r (by omega) (by omega)), hbehind⟩
      rw [lines_of_zeros _ hmany, List.drop_drop, ← Nat.add_mul]
      refine .cons (.zeros hmany hrun) (ih _ (by omega) hinside (fun hlt' hzr' => ?_) rfl)
      exact absurd hzr' (hbehind hlt')

namespace Tile

theorem pos (h : Tile m r count l) : 0 < count := by
  cases h with
  | zeros hcount => omega
  | row => exact Nat.one_pos

theorem inside (h : Tile m r count l) : r + count ≤ rowCount := by
  cases h with
  | zeros _ hrun => exact hrun.inside
  | row hr => exact hr

theorem first_eq (h : Tile m r count l) : l.first = r * rowSize := by
  cases h <;> rfl

theorem last_eq (h : Tile m r count l) : l.last + 1 = (r + count) * rowSize := by
  cases h with
  | zeros hcount =>
    show r * 16 + count * 16 - 1 + 1 = (r + count) * 16
    omega
  | row =>
    have hlength : (m.row r).length = 16 := by simp [Memory.row]
    show r * 16 + (m.row r).length - 1 + 1 = (r + 1) * 16
    omega

/-- A tile of zeros is a maximal run. -/
theorem zeroRun (h : Tile m r count l) (hspan : m.ZeroSpan l.first l.last) :
    m.ZeroRun r count := by
  have hfirst := h.first_eq
  have hlast := h.last_eq
  cases h with
  | zeros _ hrun => exact hrun
  | row _ halone =>
    rw [hfirst] at hspan
    exact halone (zeroRow_of_zeroSpan hspan (Nat.le_of_eq hlast.symm))

/-- A line has its addresses in front. -/
theorem text_eq (h : Tile m r count l) : l.text = heading l.range ++ l.content := by
  have hfirst := h.first_eq
  have hlast := h.last_eq
  have hinside := h.inside
  have hpos := h.pos
  simp only [rowSize, rowCount, memorySize] at hfirst hlast hinside
  rw [Line.text, Numeral.hex_four (by omega), Numeral.hex_four (by omega)]
  rfl

theorem content_zeros (a count : Nat) : (Line.zeros a count).content = dots :=
  (by decide : filler = dots)

theorem content_row (r : Nat) : (Line.row (r * rowSize) (m.row r)).content = m.rowText r := by
  rw [Line.content, bytesText, rowText, Memory.row, List.map_map]
  simp only [Numeral.hexDigits_two]
  rfl

/-- A row shows numbers, and the dots show none. -/
theorem rowText_ne_dots (m : Memory) (r : Nat) : m.rowText r ≠ dots := by
  intro h
  have hnumbers := numbers_content (.row (r * rowSize) (m.row r))
  rw [content_row, h] at hnumbers
  have hplain : Numeral.Plain dots.toList := by decide
  have hnone : Numeral.numbers 16 dots.toList = [] := Numeral.numbers_append_plain 16 hplain []
  have hlength := congrArg List.length (hnumbers.symm.trans hnone)
  simp [Line.shown, Memory.row] at hlength

/-- **The dots** stand for a maximal run of at least two zero rows, and for nothing else. -/
theorem text_eq_dots_iff (h : Tile m r count l) :
    l.text = heading l.range ++ dots ↔
      ∃ r' count', m.ZeroRun r' count' ∧ 2 ≤ count' ∧ l.first = r' * 16 ∧
        l.last + 1 = (r' + count') * 16 := by
  have hfirst := h.first_eq
  have hlast := h.last_eq
  rw [h.text_eq, String.append_right_inj]
  cases h with
  | zeros hcount hrun => exact iff_of_true (content_zeros _ _) ⟨r, count, hrun, hcount, hfirst, hlast⟩
  | row hr halone =>
    rw [content_row]
    refine iff_of_false (rowText_ne_dots m r) ?_
    rintro ⟨r', count', -, hcount', hfirst', hlast'⟩
    have hr' := hfirst.symm.trans hfirst'
    have hcount := hlast.symm.trans hlast'
    simp only [rowSize] at hr' hcount
    omega

/-- Every other line shows one row in full. -/
theorem text_of_ne_dots (h : Tile m r count l) (hne : l.text ≠ heading l.range ++ dots) :
    l.range = (r * 16, r * 16 + 15) ∧ l.text = heading l.range ++ m.rowText r := by
  have htext := h.text_eq
  cases h with
  | zeros => exact absurd (content_zeros _ _ ▸ htext) hne
  | row =>
    rw [content_row] at htext
    refine ⟨?_, htext⟩
    have hlength : (m.row r).length = 16 := by simp [Memory.row]
    show (r * 16, r * 16 + (m.row r).length - 1) = _
    rw [hlength]
    rfl

/-- Pairs of characters with a blank between them. -/
theorem length_intercalate_pairs {ts : List String} (h : ∀ t ∈ ts, t.length = 2) :
    (" ".intercalate ts).length = 3 * ts.length - 1 := by
  induction ts with
  | nil => rfl
  | cons t ts ih =>
    obtain ⟨ht, hts⟩ := List.forall_mem_cons.1 h
    cases ts with
    | nil => rwa [String.intercalate_singleton]
    | cons u ts =>
      have hblank : " ".length = 1 := rfl
      have hrest := ih hts
      rw [List.length_cons] at hrest
      rw [String.intercalate_cons_cons, String.length_append, String.length_append, hrest, ht,
        hblank, List.length_cons, List.length_cons]
      omega

theorem length_rowText (m : Memory) (r : Nat) : (m.rowText r).length = 47 := by
  rw [rowText, length_intercalate_pairs, List.length_map, List.length_range]
  intro t ht
  obtain ⟨i, -, rfl⟩ := List.mem_map.1 ht
  exact Numeral.length_byteText _

theorem length_content (h : Tile m r count l) : l.content.length = 47 := by
  cases h with
  | zeros => exact (by decide : dots.length = 47)
  | row => rw [content_row, length_rowText]

/-- **All lines are equally long.** -/
theorem length_text (h : Tile m r count l) : l.text.length = 65 := by
  have hdash : " - ".length = 3 := rfl
  have hcolon : " : ".length = 3 := rfl
  rw [h.text_eq, String.length_append, h.length_content, heading]
  simp only [String.length_append, Numeral.length_addressText, hdash, hcolon]

/-- **A tile shows its range.** -/
theorem shows (h : Tile m r count l) : m.Shows l.range l.text where
  dots_iff := h.text_eq_dots_iff
  row_of_ne hne := ⟨r, h.text_of_ne_dots hne⟩
  length_eq := h.length_text

end Tile

namespace Tiled

theorem exists_tile_of_head? (h : Tiled m r ls) (hl : l ∈ ls.head?) :
    ∃ count, Tile m r count l := by
  cases h with
  | nil => cases hl
  | cons hfirst =>
    obtain rfl := Option.some.inj hl
    exact ⟨_, hfirst⟩

theorem exists_tile_of_mem (h : Tiled m r ls) (hl : l ∈ ls) : ∃ r count, Tile m r count l := by
  induction h with
  | nil => cases hl
  | cons hfirst _ ih =>
    rcases List.mem_cons.1 hl with rfl | hl
    · exact ⟨_, _, hfirst⟩
    · exact ih hl

/-- There are no more lines than rows. -/
theorem add_length_le (h : Tiled m r ls) : r + ls.length ≤ rowCount := by
  induction h with
  | nil => exact Nat.le_refl _
  | cons hfirst _ ih =>
    have hpos := hfirst.pos
    rw [List.length_cons]
    omega

theorem first_of_head? (h : Tiled m r ls) (hr : r < rowCount) :
    ls.head?.map Line.first = some (r * rowSize) := by
  cases h with
  | nil => exact absurd hr (Nat.lt_irrefl _)
  | cons hfirst => exact congrArg some hfirst.first_eq

theorem last_of_getLast? (h : Tiled m r ls) (hr : r < rowCount) :
    ls.getLast?.map Line.last = some (memorySize - 1) := by
  induction h with
  | nil => exact absurd hr (Nat.lt_irrefl _)
  | @cons r count l ls hfirst hrest ih =>
    rcases Nat.lt_or_ge (r + count) rowCount with hlt | hge
    · obtain ⟨last, hlast, heq⟩ := Option.map_eq_some_iff.1 (ih hlt)
      rw [List.getLast?_cons, hlast]
      exact congrArg some heq
    · -- no row is left, so this is the last line
      have hall : r + count = rowCount := Nat.le_antisymm hfirst.inside hge
      have hnone : ls.length = 0 := by
        have hle := hrest.add_length_le
        omega
      have hlast := hfirst.last_eq
      rw [hall] at hlast
      rw [List.length_eq_zero_iff.1 hnone]
      exact congrArg some (Nat.eq_sub_of_add_eq hlast)

/-- **Each line begins right behind the one before.** -/
theorem isChain_first (h : Tiled m r ls) : ls.IsChain fun l l' => l'.first = l.last + 1 := by
  induction h with
  | nil => exact .nil
  | cons hfirst hrest ih =>
    refine ih.cons fun l' hl' => ?_
    obtain ⟨count', htile⟩ := hrest.exists_tile_of_head? hl'
    rw [htile.first_eq, hfirst.last_eq]

/-- **No two neighbouring lines stand for zeros.** -/
theorem isChain_zeroSpan (h : Tiled m r ls) :
    ls.IsChain fun l l' => ¬ (m.ZeroSpan l.first l.last ∧ m.ZeroSpan l'.first l'.last) := by
  induction h with
  | nil => exact .nil
  | cons hfirst hrest ih =>
    refine ih.cons fun l' hl' => ?_
    rintro ⟨hzero, hzero'⟩
    obtain ⟨count', htile⟩ := hrest.exists_tile_of_head? hl'
    -- the second run would belong to the first one
    have hrun := hfirst.zeroRun hzero
    have hrun' := htile.zeroRun hzero'
    have hpos := htile.pos
    have hinside := hrun'.inside
    exact hrun.behind (by omega) (hrun'.zero _ (Nat.le_refl _) (by omega))

end Tiled

end Dump

namespace Memory

open Dump

theorem tiled_dump (m : Memory) : Tiled m 0 m.dump := by
  have h := tiled_lines (m := m) (r := 0) (Nat.zero_le _) nofun
  rwa [List.drop_zero, Nat.zero_mul] at h

/-- **The dump tiles the address space.** For every memory the dump is at most one line for each of
the 256 rows, and its printed lines, one after the other, show address ranges that begin at `0x0000`,
follow one another without a gap and end at `0x0FFF`. A line has three dots behind its addresses
exactly if its range is a maximal run of at least two zero rows, and every other line is about one
row and has its sixteen bytes as two digits each. All lines are equally long, and no two neighbouring
ranges both have zeros only. -/
theorem dump_tiles (m : Memory) :
    ∃ ranges : List (Nat × Nat),
      List.Forall₂ m.Shows ranges (m.dump.map Line.text) ∧
      ranges.length ≤ 256 ∧
      ranges.head?.map Prod.fst = some 0x0000 ∧
      ranges.IsChain (fun p q => q.1 = p.2 + 1) ∧
      ranges.getLast?.map Prod.snd = some 0x0FFF ∧
      ranges.IsChain fun p q => ¬ (m.ZeroSpan p.1 p.2 ∧ m.ZeroSpan q.1 q.2) := by
  have h := m.tiled_dump
  have hlength := h.add_length_le
  rw [Nat.zero_add] at hlength
  refine ⟨m.dump.map Line.range, ?_, ?_, ?_, ?_, ?_, ?_⟩
  · rw [List.forall₂_map_left_iff, List.forall₂_map_right_iff, List.forall₂_same]
    intro l hl
    obtain ⟨r, count, htile⟩ := h.exists_tile_of_mem hl
    exact htile.shows
  · rwa [List.length_map]
  · rw [List.head?_map, Option.map_map]
    exact h.first_of_head? (by decide)
  · exact (List.isChain_map _).2 h.isChain_first
  · rw [List.getLast?_map, Option.map_map]
    exact h.last_of_getLast? (by decide)
  · exact (List.isChain_map _).2 h.isChain_zeroSpan

end Memory

end Chip8
