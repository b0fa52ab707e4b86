import Chip8.Proofs.Sprite
import Chip8.Proofs.Stores

/-!
# The font

The font lies at the start of memory, below every program. A session that stores no block there
keeps it, whatever it loads and executes, and as long as it is there a program can draw digits with
it.

* `hasFont_after`, `hasFont_history`: a session keeps the font.
* `exists_performs_draw`: a sprite at the glyph of a digit inverts the pixels of the glyph.
* `font_survives`: in every state that such a session reaches, the font is there and digits are
  drawn with it.
-/

namespace Chip8

/-- The font is in its place. -/
def Memory.HasFont (m : Memory) : Prop :=
  m.bytesFrom fontStart font.length = font

/-- A row of the glyph of a digit. -/
def glyphRow (digit row : Nat) : UInt8 :=
  font[glyphSize * digit + row]?.getD 0

/-- The pixel belongs to the glyph of a digit whose top left corner is in column `x` and row `y`:
some row of the glyph has a bit for it, counted from the highest. Columns and rows wrap around. -/
def Pixel.InGlyph (p : Pixel) (digit x y : Nat) : Prop :=
  ∃ row column, row < 5 ∧ column < 8 ∧ (glyphRow digit row).toNat.testBit (7 - column) = true ∧
    p.val = (x + column) % 64 + (y + row) % 32 * 64

namespace Memory

variable {m : Memory}

theorem hasFont_iff : m.HasFont ↔ ∀ k, k < 80 → m.byteAt k = font[k]?.getD 0 := by
  unfold HasFont bytesFrom
  constructor
  · intro h k hk
    have hget := congrArg (fun l => l[k]?.getD 0) h
    have hlt : k < font.length := hk
    simpa [hlt, fontStart] using hget
  · intro h
    apply List.ext_getElem
    · simp
    · intro k _ hk
      have hbyte := h k hk
      rw [List.getElem?_eq_getElem hk] at hbyte
      simpa [fontStart] using hbyte

/-- Memory at power-on has the font. -/
theorem hasFont_blank : blank.HasFont := by
  rw [hasFont_iff]
  intro k hk
  have hlt : k < font.length := hk
  have hinside : fontStart + k < memorySize := show 0 + k < 4096 by omega
  have hbyte := byteAt_poke_add ⟨Vector.replicate memorySize 0⟩ hlt hinside
  rw [Nat.zero_add] at hbyte
  rw [List.getElem?_eq_getElem hlt]
  exact hbyte

/-- **The bytes of a glyph** are in their place with the font. -/
theorem HasFont.glyph (h : m.HasFont) {digit row : Nat} (hd : digit < 16) (hr : row < 5) :
    m.byteAt (5 * digit + row) = glyphRow digit row :=
  hasFont_iff.1 h _ (by omega)

end Memory

namespace Moment

variable {e : Moment} {a : Nat}

/-- Only `FX33` and `FX55` store a block. -/
theorem StoresAt.exists_store (h : e.StoresAt a) :
    (∃ x, e.Performs (.storeDecimal x) ∨ e.Performs (.storeRegisters x)) ∧
      e.machine.registers.index.toNat ≤ a := by
  obtain ⟨i, hp, hlow, hhigh⟩ := h
  refine ⟨?_, hlow⟩
  cases i with
  | storeDecimal x => exact ⟨x, .inl hp⟩
  | storeRegisters x => exact ⟨x, .inr hp⟩
  | _ => exact absurd hhigh (Nat.not_lt_of_le hlow)

/-- **An elementary request keeps the font**, unless it stores a block that begins in it. -/
theorem hasFont_after (he : e.request.IsElementary) (hfont : e.machine.memory.HasFont)
    (hs : ∀ x, e.Performs (.storeDecimal x) ∨ e.Performs (.storeRegisters x) →
      0x50 ≤ e.machine.registers.index.toNat) :
    e.after.memory.HasFont := by
  rw [Memory.hasFont_iff] at hfont ⊢
  intro k hk
  rw [← hfont k hk]
  by_cases hload : ∃ program, e.request = .load program
  · -- a program is loaded behind the font
    obtain ⟨m, r⟩ := e
    obtain ⟨program, rfl⟩ := hload
    show (m.serve (.load program)).machine.memory.byteAt k = m.memory.byteAt k
    rcases hp : m.memory.load program with f | memory
    · rw [Machine.serve_load_machine_of_error hp]
    · rw [Machine.serve_load_machine_of_ok hp, (Memory.load_eq_ok_iff.1 hp).2]
      refine m.memory.byteAt_poke_of_outside (.inl ?_)
      show k < 0x200
      omega
  · push Not at hload
    refine byteAt_after he hload fun hstores => ?_
    obtain ⟨⟨x, hx⟩, hlow⟩ := hstores.exists_store
    have hhigh := hs x hx
    omega

end Moment

/-- The glyph of a digit lies at five times its lowest four bits. -/
theorem glyphAddress_eq (v : UInt8) : glyphAddress v = 5 * (v.toNat % 16) := by
  have hmask : (v &&& 0xF).toNat = v.toNat % 16 := by
    rw [UInt8.toNat_and]
    exact Nat.and_two_pow_sub_one_eq_mod v.toNat 4
  unfold glyphAddress
  rw [hmask]
  exact Nat.zero_add _

/-- The index register takes the address of a glyph as it is. -/
theorem Registers.index_loadGlyph (r : Registers) (v : UInt8) :
    (r.setIndex (glyphAddress v).toUInt16).index.toNat = 5 * (v.toNat % 16) := by
  have hlt : v.toNat % 16 < 16 := Nat.mod_lt _ (by decide)
  have haddress : (glyphAddress v).toUInt16.toNat = 5 * (v.toNat % 16) := by
    rw [glyphAddress_eq]
    exact Nat.mod_eq_of_lt (by omega)
  rw [toNat_index_setIndex, haddress]
  exact Nat.mod_eq_of_lt (show 5 * (v.toNat % 16) < 4096 by omega)

/-- **The sprite at a glyph** has the pixels of the glyph. -/
theorem mem_spritePixels_glyph {memory : Memory} (hfont : memory.HasFont) {digit x y : Nat}
    (hd : digit < 16) {p : Pixel} :
    p ∈ Screen.spritePixels x y (memory.bytesFrom (5 * digit) 5) ↔ p.InGlyph digit x y := by
  have hrow : ∀ r, r < 5 →
      (memory.bytesFrom (5 * digit) 5)[r]? = some (glyphRow digit r) := by
    intro r hr
    unfold Memory.bytesFrom
    rw [List.getElem?_map, List.getElem?_range hr, Option.map_some, hfont.glyph hd hr]
  rw [Screen.mem_spritePixels]
  constructor
  · rintro ⟨r, c, row, hget, hc, hbit, rfl⟩
    have hr : r < 5 := by
      have hlt := (List.getElem?_eq_some_iff.1 hget).1
      rwa [Memory.length_bytesFrom] at hlt
    rw [hrow r hr] at hget
    obtain rfl := Option.some.inj hget
    exact ⟨r, c, hr, hc, hbit, rfl⟩
  · rintro ⟨r, c, hr, hc, hbit, hp⟩
    exact ⟨r, c, _, hrow r hr, hc, hbit, Fin.ext hp⟩

namespace Machine

open Instruction

variable {m : Machine} {x a b : Nat}

/-- **Drawing at the glyph of a digit** succeeds on every machine with the font, and inverts the
pixels of the glyph and no others. -/
theorem exists_performs_draw (hfont : m.memory.HasFont) (ha : a < registerCount)
    (hb : b < registerCount) {digit : Nat} (hd : digit < 16)
    (hindex : m.registers.index.toNat = 5 * digit) :
    ∃ screen hit,
      Performs m (draw a b 5) { m with screen, registers := m.registers.setFlag hit } .next .redraw
        [] ∧
      ∀ p, screen.isLit p ≠ m.screen.isLit p ↔
        p.InGlyph digit (m.registers.valueAt a).toNat (m.registers.valueAt b).toNat := by
  have hle : m.registers.index.toNat + 5 ≤ memorySize := by
    rw [hindex]
    show 5 * digit + 5 ≤ 4096
    omega
  refine ⟨_, _, .draw ha hb hle rfl, fun p => ?_⟩
  rw [hindex]
  have hheight : (m.memory.bytesFrom (5 * digit) 5).length ≤ screenHeight := by
    rw [Memory.length_bytesFrom]
    decide
  exact (Screen.isLit_drawSprite_ne_iff m.screen hheight).trans (mem_spritePixels_glyph hfont hd)

/-- The second machine shows the glyph of the digit in `VX` in column `VA` and row `VB`, in addition
to what the first one shows: just the pixels of the glyph are inverted. -/
def AddsGlyph (m m' : Machine) (x a b : Nat) : Prop :=
  ∀ p, m'.screen.isLit p ≠ m.screen.isLit p ↔
    p.InGlyph ((m.registers.valueAt x).toNat % 16) (m.registers.valueAt a).toNat
      (m.registers.valueAt b).toNat

/-- Going to the glyph of a digit and drawing it, as two instructions. -/
theorem run_drawGlyph (hfont : m.memory.HasFont) (hx : x < registerCount)
    (ha : a < registerCount) (hb : b < registerCount) :
    ∃ m', ((loadGlyph x).perform >>= fun _ => (draw a b 5).perform).run m =
      ⟨.ok .redraw, m', []⟩ ∧ m.AddsGlyph m' x a b := by
  let ready : Machine :=
    { m with
      pc := m.pc + instructionSize
      registers := m.registers.setIndex (glyphAddress (m.registers.valueAt x)).toUInt16 }
  have hload : (loadGlyph x).perform.run m = ⟨.ok .nothing, ready, []⟩ := by
    rw [run_perform, run_of_performs (.loadGlyph hx)]
    rfl
  obtain ⟨screen, hit, hp, hglyph⟩ := exists_performs_draw (m := ready) hfont ha hb
    (Nat.mod_lt _ (by decide)) (m.registers.index_loadGlyph (m.registers.valueAt x))
  let drawn : Machine :=
    { ready with
      pc := ready.pc + instructionSize, screen, registers := ready.registers.setFlag hit }
  have hdraw : (draw a b 5).perform.run ready = ⟨.ok .redraw, drawn, []⟩ := by
    rw [run_perform, run_of_performs hp]
    rfl
  refine ⟨drawn, ?_, hglyph⟩
  rw [Routine.run_bind, hload, Outcome.andThen_ok, hdraw]
  rfl

/-- Going to the glyph of a digit and drawing it, as two cycles. -/
theorem execute_drawGlyph (hfont : m.memory.HasFont) (hx : m.memory.Holds m.pc (loadGlyph x))
    (hdraw : m.memory.Holds (m.pc + instructionSize) (draw a b 5)) :
    (execute.run m).result = .ok .nothing ∧
      (execute.run (execute.run m).machine).result = .ok .redraw ∧
      m.AddsGlyph (execute.run (execute.run m).machine).machine x a b := by
  obtain ⟨w, hw, hd⟩ := hx
  obtain ⟨w', hw', hd'⟩ := hdraw
  have hx : x < registerCount := namesRegisters_of_decode hd x List.mem_cons_self
  have ha : a < registerCount := namesRegisters_of_decode hd' a List.mem_cons_self
  have hb : b < registerCount :=
    namesRegisters_of_decode hd' b (List.mem_cons_of_mem a List.mem_cons_self)
  have hload := run_of_executes (.performed hw hd (.loadGlyph hx))
  let ready : Machine :=
    { m with
      opcode := w
      pc := m.pc + instructionSize
      registers := m.registers.setIndex (glyphAddress (m.registers.valueAt x)).toUInt16 }
  have hready : (execute.run m).machine = ready := by
    rw [hload]
    rfl
  obtain ⟨screen, hit, hp, hglyph⟩ :=
    exists_performs_draw (m := { ready with opcode := w' }) hfont ha hb
      (Nat.mod_lt _ (by decide)) (m.registers.index_loadGlyph (m.registers.valueAt x))
  have hsecond := run_of_executes (.performed (m := ready) hw' hd' hp)
  refine ⟨by rw [hload], ?_, ?_⟩
  · rw [hready, hsecond]
  · rw [hready, hsecond]
    exact hglyph

/-- A session that stores no block in the font keeps it. -/
theorem hasFont_history (random : RandomSource) (session : List Request)
    (hs : ∀ e ∈ (boot random).history session, ∀ x,
      e.Performs (.storeDecimal x) ∨ e.Performs (.storeRegisters x) →
        0x50 ≤ e.machine.registers.index.toNat) :
    (∀ e ∈ (boot random).history session,
      e.machine.memory.HasFont ∧ e.after.memory.HasFont) ∧
      ((boot random).after session).memory.HasFont :=
  Trail.invariant (P := fun m => m.memory.HasFont)
    (fun e he hel hfont => Moment.hasFont_after hel hfont (hs e he)) (trail_history _ session)
    Memory.hasFont_blank

/-- **The font survives, and digits are drawn with it.** Take any session on a new machine that
performs no `FX33` and no `FX55` while `I` is below `0x50`. In every state that it reaches, also
inside a step or a frame, the first eighty bytes are the font. From every such state, going to the
glyph of the digit in `VX` and drawing its five rows at `VA` and `VB` succeeds, whether the two
instructions are performed as such or come next in memory. It inverts exactly the pixels of the
glyph of `VX` modulo 16, whose corner is in column `VA` modulo 64 and row `VB` modulo 32. -/
theorem font_survives (random : RandomSource) (session : List Request)
    (hs : ∀ e ∈ (boot random).history session, ∀ x,
      e.Performs (.storeDecimal x) ∨ e.Performs (.storeRegisters x) →
        0x50 ≤ e.machine.registers.index.toNat) :
    ∀ m, (m = (boot random).after session ∨
        ∃ e ∈ (boot random).history session, m = e.machine ∨ m = e.after) →
      m.memory.bytesFrom 0x000 0x50 = font ∧
      ∀ x a b,
        (x < 16 → a < 16 → b < 16 →
          ∃ m', ((loadGlyph x).perform >>= fun _ => (draw a b 5).perform).run m =
            ⟨.ok .redraw, m', []⟩ ∧ m.AddsGlyph m' x a b) ∧
        (m.memory.Holds m.pc (loadGlyph x) → m.memory.Holds (m.pc + 2) (draw a b 5) →
          (execute.run m).result = .ok .nothing ∧
          (execute.run (execute.run m).machine).result = .ok .redraw ∧
          m.AddsGlyph (execute.run (execute.run m).machine).machine x a b) := by
  intro m hm
  obtain ⟨hmoments, hafter⟩ := hasFont_history random session hs
  have hfont : m.memory.HasFont := by
    rcases hm with rfl | ⟨e, he, rfl | rfl⟩
    · exact hafter
    · exact (hmoments e he).1
    · exact (hmoments e he).2
  refine ⟨hfont, fun x a b => ⟨fun hx ha hb => ?_, fun hx hdraw => ?_⟩⟩
  · exact run_drawGlyph hfont hx ha hb
  · exact execute_drawGlyph hfont hx hdraw

/-- A register is stored behind the font, and then a zero is drawn at the top left corner. -/
theorem font_survives_store_behind :
    let session := [.load [0xA3, 0x00, 0xF0, 0x55, 0xF0, 0x29, 0xD0, 0x05], .execute, .execute]
    let m := (boot (.repeating #[])).after session
    let drawn := (execute.run (execute.run m).machine).machine
    (∃ e ∈ (boot (.repeating #[])).history session, e.Performs (.storeRegisters 0)) ∧
      m.memory.bytesFrom 0x000 0x50 = font ∧
      (execute.run m).result = .ok .nothing ∧
      (execute.run (execute.run m).machine).result = .ok .redraw ∧
      drawn.screen.isLit (Pixel.ofCoords 0 0) = true ∧
      drawn.screen.isLit (Pixel.ofCoords 1 1) = false := by
  intro session m
  let start := boot (.repeating #[])
  let program : List UInt8 := [0xA3, 0x00, 0xF0, 0x55, 0xF0, 0x29, 0xD0, 0x05]
  let memory := start.memory.poke programStart program
  have hfit : program.length ≤ programCapacity := by decide
  have h₀ : memory.readWord 0x200 = .ok 0xA300 :=
    start.memory.readWord_program (k := 0) hfit rfl rfl
  have h₂ : memory.readWord 0x202 = .ok 0xF055 :=
    start.memory.readWord_program (k := 2) hfit rfl rfl
  have h₄ : memory.readWord 0x204 = .ok 0xF029 :=
    start.memory.readWord_program (k := 4) hfit rfl rfl
  have h₆ : memory.readWord 0x206 = .ok 0xD005 :=
    start.memory.readWord_program (k := 6) hfit rfl rfl
  have hload : (start.serve (.load program)).machine = { start with memory } :=
    serve_load_machine_of_ok (Memory.load_eq_ok_iff.2 ⟨hfit, rfl⟩)
  clear_value memory
  -- the machines that the two instructions meet and leave
  let m₀ : Machine := { start with memory }
  let m₁ : Machine :=
    { m₀ with opcode := 0xA300, registers := Registers.blank.setIndex 0x300, pc := 0x202 }
  let m₂ : Machine :=
    { m₁ with
      opcode := 0xF055, pc := 0x204
      memory := memory.poke 0x300 (m₁.registers.upTo 0) }
  obtain ⟨-, hm₁⟩ := Moment.performs_of_rule (m := m₀) (i := .loadIndex 0x300) h₀ rfl
    (.loadIndex 0x300)
  obtain ⟨hstore, hm₂⟩ := Moment.performs_of_rule (m := m₁) (i := .storeRegisters 0) h₂ rfl
    (.storeRegisters (by decide)
      (show (Registers.blank.setIndex 0x300).index.toNat + 1 ≤ 4096 by decide))
  have hm₁ : (m₀.serve .execute).machine = m₁ := hm₁
  have hm₂ : (m₁.serve .execute).machine = m₂ := hm₂
  have hload : ((boot (.repeating #[])).serve
      (.load [0xA3, 0x00, 0xF0, 0x55, 0xF0, 0x29, 0xD0, 0x05])).machine = m₀ := hload
  have hhistory : start.history session =
      [⟨start, .load program⟩, ⟨m₀, .execute⟩, ⟨m₁, .execute⟩] := by
    have hrest : m₀.history [.execute, .execute] = [⟨m₀, .execute⟩, ⟨m₁, .execute⟩] := by
      simp only [history, breakdown, hm₁]
      rfl
    rw [history, hload, hrest]
    rfl
  have hm : m = m₂ := by
    show start.after session = m₂
    rw [after, hload, after, hm₁, after, hm₂, after]
  have hs : ∀ e ∈ start.history session, ∀ x,
      e.Performs (.storeDecimal x) ∨ e.Performs (.storeRegisters x) →
        0x50 ≤ e.machine.registers.index.toNat := by
    intro e he x hp
    rw [hhistory] at he
    simp only [List.mem_cons, List.not_mem_nil, or_false] at he
    rcases he with rfl | rfl | rfl
    · rcases hp with hp | hp <;> cases hp.1
    · rcases hp with ⟨-, w, signal, hw, hd, -⟩ | ⟨-, w, signal, hw, hd, -⟩ <;>
      · have hw : memory.readWord 0x200 = .ok w := hw
        rw [h₀] at hw
        cases hw
        cases hd
    · show 0x50 ≤ (Registers.blank.setIndex 0x300).index.toNat
      decide
  obtain ⟨hfont, hdigits⟩ := font_survives (.repeating #[]) session hs m (.inl rfl)
  have kept {a : Nat} (ha : a + 2 ≤ 0x300) : m₂.memory.readWord a = memory.readWord a :=
    memory.readWord_poke_of_outside (.inl ha)
  have hglyph : m.memory.Holds m.pc (loadGlyph 0) := by
    rw [hm]
    exact ⟨_, (kept (a := 0x204) (by decide)).trans h₄, rfl⟩
  have hdraw : m.memory.Holds (m.pc + 2) (draw 0 0 5) := by
    rw [hm]
    exact ⟨_, (kept (a := 0x206) (by decide)).trans h₆, rfl⟩
  obtain ⟨hfirst, hsecond, hadds⟩ := (hdigits 0 0 0).2 hglyph hdraw
  have hmem : (⟨m₁, .execute⟩ : Moment) ∈ start.history session := by
    rw [hhistory]
    simp
  generalize (execute.run (execute.run m).machine).machine = drawn at hadds ⊢
  -- the screen was dark, so the pixels that are lit are those of the glyph
  have hlit : ∀ p, drawn.screen.isLit p = true ↔ p.InGlyph 0 0 0 := by
    intro p
    have hdark : m.screen.isLit p = false := by
      rw [hm]
      exact Screen.isLit_blank p
    have hzero : m.registers.valueAt 0 = 0 := by
      rw [hm]
      rfl
    have hp := hadds p
    rw [hdark, hzero] at hp
    exact Bool.ne_false_iff.symm.trans hp
  refine ⟨⟨⟨m₁, .execute⟩, hmem, hstore⟩, hfont, hfirst, hsecond, ?_, ?_⟩
  · exact (hlit _).2 ⟨0, 0, by decide, by decide, by decide, rfl⟩
  · rw [← Bool.not_eq_true, hlit]
    rintro ⟨row, column, hr, hc, hbit, hp⟩
    have hp : 65 = (0 + column) % 64 + (0 + row) % 32 * 64 := hp
    obtain rfl : row = 1 := by omega
    obtain rfl : column = 1 := by omega
    exact absurd hbit (by decide)

end Machine

end Chip8
