import Chip8.Machine.Listing
import Chip8.Proofs.Dump

/-!
# Reading a listing back

A listing is cut into its lines again, and each line into its numbers. This gives back all that a
listing shows, so machines that differ in any of it have different listings.

* `numbers_counterLine`, `numbers_timerLine`, `numbers_registerLine`, `numbers_stackLine`: the
  numbers in each line above the dump.
* `newline_not_mem_listing`: no line has a line break in it.
* `splitOn_text`: the text falls apart into the lines of the listing.
* `read_text`: a listing is read as what it shows.
* `text_lossless`: machines with the same listing are the same in all that a listing shows.
-/

namespace Chip8

/-- What a listing shows of a machine. -/
structure Shown where
  pc : Nat
  opcode : Word
  registers : Registers
  timers : Timers
  stack : Stack
  memory : Memory
deriving DecidableEq

/-- The part of a machine that its listing shows. -/
def Machine.shown (m : Machine) : Shown where
  pc := m.pc
  opcode := m.opcode
  registers := m.registers
  timers := m.timers
  stack := m.stack
  memory := m.memory

/-- The table of `n` bytes, if there are as many. -/
def tableOf (n : Nat) (bytes : List UInt8) : Option (Vector UInt8 n) :=
  if h : bytes.length = n then some ⟨bytes.toArray, h⟩ else none

theorem tableOf_toList {n : Nat} (v : Vector UInt8 n) : tableOf n v.toList = some v := by
  have h : v.toList.length = n := Vector.length_toList
  rw [tableOf, dif_pos h]
  rfl

/-- Every second element of a list. -/
def seconds {α : Type} : List α → List α
  | _ :: b :: rest => b :: seconds rest
  | _ => []

theorem seconds_flatMap {α β : Type} (f g : α → β) (l : List α) :
    seconds (l.flatMap fun a => [f a, g a]) = l.map g := by
  induction l with
  | nil => rfl
  | cons a l ih => exact congrArg (g a :: ·) ih

namespace Shown

open Numeral

/-- Reads the lines of a listing. -/
def readLines : List (List Char) → Option Shown
  | counter :: timer :: low :: high :: calls :: dump =>
    match numbers 16 counter, numbers 10 timer,
      tableOf registerCount
        ((seconds (numbers 16 low) ++ seconds (numbers 16 high)).map UInt8.ofNat),
      tableOf memorySize (dump.flatMap Dump.readLine) with
    | [pc, opcode, index], [delay, sound], some values, some bytes =>
      some
        { pc
          opcode := UInt16.ofNat opcode
          registers := ⟨values, UInt16.ofNat index⟩
          timers := ⟨UInt8.ofNat delay, UInt8.ofNat sound⟩
          stack := ⟨((numbers 16 calls).map UInt16.ofNat).reverse⟩
          memory := ⟨bytes⟩ }
    | _, _, _, _ => none
  | _ => none

/-- Reads the text of a listing. -/
def read (text : String) : Option Shown :=
  readLines (text.toList.splitOn '\n')

end Shown

section Lines

theorem newline_not_mem_intercalate {sep : String} {ts : List String} (hsep : '\n' ∉ sep.toList)
    (hts : ∀ t ∈ ts, '\n' ∉ t.toList) : '\n' ∉ (sep.intercalate ts).toList := by
  induction ts with
  | nil => simp
  | cons t ts ih =>
    have ht := hts t List.mem_cons_self
    have hrest := ih fun u hu => hts u (List.mem_cons_of_mem t hu)
    cases ts with
    | nil => rwa [String.intercalate_singleton]
    | cons u ts =>
      rw [String.intercalate_cons_cons, String.toList_append, String.toList_append]
      simp only [List.mem_append, not_or]
      exact ⟨⟨ht, hsep⟩, hrest⟩

/-- Lines that end with a line break, and have none before, fall apart again. -/
theorem splitOn_lines {ls : List (List Char)} (h : ∀ l ∈ ls, '\n' ∉ l) :
    (ls.flatMap (· ++ ['\n'])).splitOn '\n' = ls ++ [[]] := by
  induction ls with
  | nil => rfl
  | cons l ls ih =>
    have hl := h l List.mem_cons_self
    have hrest := ih fun k hk => h k (List.mem_cons_of_mem l hk)
    rw [List.flatMap_cons, List.append_assoc, List.singleton_append, List.splitOn_append_cons_self,
      List.splitOn_eq_singleton hl, hrest]
    rfl

end Lines

namespace Machine

open Numeral

variable (m : Machine)

section Numbers

theorem numbers_counterLine :
    numbers 16 m.counterLine.toList = [m.pc, m.opcode.toNat, m.registers.index.toNat] := by
  unfold counterLine
  simp only [String.toList_append, List.append_assoc]
  rw [numbers_plain_append 16 (by decide), numbers_append 16 (by decide),
    numbers_append 16 (by decide), numbers_hex, numbers_hex, numbers_hex]
  rfl

theorem numbers_timerLine :
    numbers 10 m.timerLine.toList = [m.timers.delay.toNat, m.timers.sound.toNat] := by
  unfold timerLine
  simp only [String.toList_append, List.append_assoc]
  rw [numbers_plain_append 10 (by decide), numbers_append 10 (by decide),
    numbers_decimal, numbers_decimal]
  rfl

theorem numbers_registerText (x : Nat) :
    numbers 16 (m.registerText x).toList = [x, (m.registers.valueAt x).toNat] := by
  unfold registerText
  simp only [String.toList_append, List.append_assoc]
  rw [numbers_plain_append 16 (by decide), numbers_append 16 (by decide),
    numbers_hexDigits, numbers_hex]
  rfl

theorem numbers_registerLine (x : Nat) :
    numbers 16 (m.registerLine x).toList =
      (List.range registersPerLine).flatMap fun i =>
        [x + i, (m.registers.valueAt (x + i)).toNat] := by
  rw [registerLine, String.toList_intercalate, numbers_intercalate 16 (by decide),
    List.map_map, List.flatMap_map]
  simp only [Function.comp_apply, numbers_registerText]

theorem numbers_stackLine :
    numbers 16 m.stackLine.toList = m.stack.toList.map UInt16.toNat := by
  rw [stackLine, String.toList_append, String.toList_append, numbers_append_plain 16 (by decide),
    numbers_plain_append 16 (by decide), String.toList_intercalate,
    numbers_intercalate 16 (by decide), List.map_map, List.flatMap_map]
  simp only [Function.comp_apply, numbers_hex]
  exact List.map_eq_flatMap.symm

/-- The two lines of registers together show all of them. -/
theorem seconds_registerLines :
    (seconds (numbers 16 (m.registerLine 0).toList) ++
        seconds (numbers 16 (m.registerLine registersPerLine).toList)).map UInt8.ofNat =
      m.registers.toList := by
  have hvalues : m.registers.toList = (List.range registerCount).map m.registers.valueAt :=
    toList_eq_map_range m.registers.values
  have hcount : registerCount = registersPerLine + registersPerLine := rfl
  rw [numbers_registerLine, numbers_registerLine, seconds_flatMap, seconds_flatMap, hvalues, hcount,
    List.range_add]
  simp [Function.comp_def]

end Numbers

section Text

theorem newline_not_mem_hex (width n : Nat) : '\n' ∉ (hex width n).toList :=
  not_mem_hex (by decide) (by decide) width n

theorem newline_not_mem_hexDigits (width n : Nat) : '\n' ∉ (hexDigits width n).toList :=
  not_mem_hexDigits (by decide) width n

theorem newline_not_mem_decimal (n : Nat) : '\n' ∉ (decimal n).toList :=
  not_mem_decimal (by decide) n

theorem newline_not_mem_registerLine (x : Nat) : '\n' ∉ (m.registerLine x).toList := by
  refine newline_not_mem_intercalate (by decide) ?_
  simp [registerText, newline_not_mem_hex, newline_not_mem_hexDigits]

theorem newline_not_mem_stackLine : '\n' ∉ m.stackLine.toList := by
  have hcalls : '\n' ∉ (", ".intercalate (m.stack.toList.map fun a => hex 4 a.toNat)).toList := by
    refine newline_not_mem_intercalate (by decide) ?_
    simp [newline_not_mem_hex]
  rw [stackLine, String.toList_append, String.toList_append]
  simp only [List.mem_append, not_or]
  exact ⟨⟨by decide, hcalls⟩, by decide⟩

theorem newline_not_mem_dumpLine (l : Dump.Line) : '\n' ∉ l.text.toList := by
  have hcontent : '\n' ∉ l.content.toList := by
    cases l with
    | row _ bytes =>
      refine newline_not_mem_intercalate (by decide) ?_
      simp [newline_not_mem_hexDigits]
    | zeros _ _ => exact (by decide : '\n' ∉ Dump.filler.toList)
  simp [Dump.Line.text, newline_not_mem_hex, hcontent]

/-- **No line** of a listing has a line break in it. -/
theorem newline_not_mem_listing {line : String} (h : line ∈ m.listing) : '\n' ∉ line.toList := by
  simp only [listing, List.mem_append, List.mem_cons, List.not_mem_nil, or_false, List.mem_map]
    at h
  rcases h with (rfl | rfl | rfl | rfl | rfl) | ⟨l, -, rfl⟩
  · unfold counterLine
    simp [newline_not_mem_hex]
  · unfold timerLine
    simp [newline_not_mem_decimal]
  · exact m.newline_not_mem_registerLine 0
  · exact m.newline_not_mem_registerLine registersPerLine
  · exact m.newline_not_mem_stackLine
  · exact newline_not_mem_dumpLine l

/-- **The text falls apart** into the lines of the listing. The last line break leaves an empty line
behind. -/
theorem splitOn_text :
    m.text.toList.splitOn '\n' =
      m.counterLine.toList :: m.timerLine.toList :: (m.registerLine 0).toList ::
        (m.registerLine registersPerLine).toList :: m.stackLine.toList ::
          ((m.memory.dump.map Dump.Line.text).map String.toList ++ [[]]) := by
  have htext : m.text.toList = (m.listing.map String.toList).flatMap (· ++ ['\n']) := by
    simp [text, String.toList_join, List.flatMap_map]
  have hlines : ∀ l ∈ m.listing.map String.toList, '\n' ∉ l := by
    intro l hl
    obtain ⟨line, hline, rfl⟩ := List.mem_map.1 hl
    exact m.newline_not_mem_listing hline
  rw [htext, splitOn_lines hlines, listing, List.map_append]
  rfl

/-- The lines of the dump give the bytes of memory, and the empty line gives none. -/
theorem flatMap_readLine_text :
    ((m.memory.dump.map Dump.Line.text).map String.toList ++ [[]]).flatMap Dump.readLine =
      m.memory.toList := by
  rw [List.flatMap_append, List.map_map, List.flatMap_map]
  exact (List.append_nil _).trans m.memory.flatMap_readLine_dump

/-- **A listing is read** as what it shows. -/
theorem read_text : Shown.read m.text = some m.shown := by
  have hregisters : tableOf registerCount m.registers.toList = some m.registers.values :=
    tableOf_toList m.registers.values
  have hmemory : tableOf memorySize m.memory.toList = some m.memory.bytes :=
    tableOf_toList m.memory.bytes
  have hstack : ((m.stack.toList.map UInt16.toNat).map UInt16.ofNat).reverse =
      m.stack.entries := by
    have hsame : m.stack.toList.map (UInt16.ofNat ∘ UInt16.toNat) = m.stack.toList :=
      List.map_id'' (fun a => UInt16.ofNat_toNat) _
    rw [List.map_map, hsame, Stack.toList, List.reverse_reverse]
  unfold Shown.read
  rw [splitOn_text]
  simp only [Shown.readLines, numbers_counterLine, numbers_timerLine, numbers_stackLine,
    seconds_registerLines, flatMap_readLine_text, hregisters, hmemory, hstack, UInt8.ofNat_toNat,
    UInt16.ofNat_toNat]
  rfl

end Text

/-- **A listing loses nothing of what it shows.** It can be read back, and machines have the same
listing exactly if they have the same program counter, opcode, registers, timers, calls and memory,
though runs of zeros are collapsed. -/
theorem text_lossless :
    (∀ m : Machine, Shown.read m.text = some m.shown) ∧
      ∀ m n : Machine, m.text = n.text ↔
        m.pc = n.pc ∧ m.opcode = n.opcode ∧ m.registers = n.registers ∧ m.timers = n.timers ∧
          m.stack = n.stack ∧ m.memory = n.memory := by
  refine ⟨read_text, fun m n => ⟨fun h => ?_, ?_⟩⟩
  · have hshown : some m.shown = some n.shown := by
      rw [← read_text m, ← read_text n, h]
    simpa only [shown, Option.some.injEq, Shown.mk.injEq] using hshown
  · obtain ⟨memory, registers, pc, stack, timers, screen, keypad, random, opcode, tone⟩ := m
    rintro ⟨rfl, rfl, rfl, rfl, rfl, rfl⟩
    rfl

end Machine

end Chip8
