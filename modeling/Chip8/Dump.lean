import Chip8.Memory

/-!
# Memory dump

Memory as lines of text, sixteen bytes a line. Two or more lines of zeros in a row are shown as one
line with a filler in place of the bytes.

* `lines_of_zeros`, `lines_of_row`: how the dump goes on at a run of zero rows, and elsewhere.
-/

namespace Chip8

namespace Dump

/-- Bytes of a row. -/
abbrev rowSize : Nat := 16

/-- A line of the dump. -/
inductive Line where
  /-- The bytes from `address` on. -/
  | row (address : Nat) (bytes : List UInt8)
  /-- A run of `count` rows of zeros from `address` on. -/
  | zeros (address count : Nat)
deriving DecidableEq

/-- Whether all bytes of a row are zero. -/
def isZeroRow (row : List UInt8) : Bool :=
  row.all (· == 0)

/-- The number of zero rows at the start. -/
def zeroRows (rows : List (List UInt8)) : Nat :=
  (rows.takeWhile isZeroRow).length

/-- The lines of rows that begin at an address. -/
def lines (address : Nat) : List (List UInt8) → List Line
  | [] => []
  | row :: rest =>
    if 2 ≤ zeroRows (row :: rest) then
      .zeros address (zeroRows (row :: rest)) ::
        lines (address + zeroRows (row :: rest) * rowSize)
          ((row :: rest).drop (zeroRows (row :: rest)))
    else .row address row :: lines (address + row.length) rest
termination_by rows => rows.length
decreasing_by
  all_goals simp only [List.length_drop, List.length_cons]
  all_goals omega

/-- The first address of a line. -/
def Line.first : Line → Nat
  | row address _ => address
  | zeros address _ => address

/-- The number of bytes that a line stands for. -/
def Line.size : Line → Nat
  | row _ bytes => bytes.length
  | zeros _ count => count * rowSize

/-- The last address of a line. -/
def Line.last (l : Line) : Nat :=
  l.first + l.size - 1

/-- Bytes as pairs of digits. -/
def bytesText (bytes : List UInt8) : String :=
  " ".intercalate (bytes.map fun b => Numeral.hexDigits 2 b.toNat)

/-- Three dots in the middle of the width of a row. -/
def filler : String :=
  let blanks := String.ofList (List.replicate ((3 * rowSize - 1 - 3) / 2) ' ')
  blanks ++ "..." ++ blanks

/-- What a line shows behind its addresses. -/
def Line.content : Line → String
  | row _ bytes => bytesText bytes
  | zeros _ _ => filler

/-- The text of a line. -/
def Line.text (l : Line) : String :=
  Numeral.hex 4 l.first ++ " - " ++ Numeral.hex 4 l.last ++ " : " ++ l.content

theorem lines_of_zeros {rows : List (List UInt8)} (address : Nat) (h : 2 ≤ zeroRows rows) :
    lines address rows =
      .zeros address (zeroRows rows) ::
        lines (address + zeroRows rows * rowSize) (rows.drop (zeroRows rows)) := by
  cases rows with
  | nil => simp [zeroRows] at h
  | cons row rest => rw [lines, if_pos h]

theorem lines_of_row {row : List UInt8} {rest : List (List UInt8)} (address : Nat)
    (h : zeroRows (row :: rest) < 2) :
    lines address (row :: rest) = .row address row :: lines (address + row.length) rest := by
  rw [lines, if_neg (Nat.not_le_of_lt h)]

end Dump

namespace Memory

/-- The rows of memory, in the order of their addresses. -/
def rows (m : Memory) : List (List UInt8) :=
  (List.range (memorySize / Dump.rowSize)).map fun r =>
    (List.range Dump.rowSize).map fun i => m.byteAt (r * Dump.rowSize + i)

/-- The dump of memory. -/
def dump (m : Memory) : List Dump.Line :=
  Dump.lines 0 m.rows

end Memory

end Chip8
