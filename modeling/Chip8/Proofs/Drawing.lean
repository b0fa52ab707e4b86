import Chip8.Proofs.Blits
import Chip8.Proofs.Invocation
import Chip8.Proofs.Snapshot
import Mathlib.Algebra.BigOperators.Group.Finset.Piecewise
import Mathlib.Algebra.BigOperators.Group.Finset.Sigma
import Mathlib.Data.Nat.Count

/-!
# Drawing a sprite

A sprite hits a pixel with each of its bits that falls on the pixel, and each hit inverts the pixel.
The flag of a draw instruction tells whether a lit pixel was hit on the way.

* `count_spritePixels`: a sprite names a pixel once for each bit that falls on it.
* `draw_pixel_law`: the state that a draw instruction leaves, by the hits on each pixel.
* `exists_hits_iff`: a sprite hits a pixel if it has a bit that is set.
* `draw_twice`: the second of two draws restores the screen, and their flags tell which pixels of the
  sprite were lit at first.
-/

namespace Chip8

namespace Screen

open Finset

/-- A row names a pixel once for each bit that falls on it. -/
theorem count_rowPixels (x y : Nat) (row : UInt8) (p : Pixel) :
    (rowPixels x y row).count p =
      ∑ b ∈ range 8, if row.toNat.testBit (7 - b) ∧ p = Pixel.ofCoords (x + b) y then 1 else 0 := by
  rw [← card_filter, ← Nat.count_eq_card_filter_range]
  unfold rowPixels Nat.count
  rw [List.count_eq_countP, List.countP_map, List.countP_filter]
  refine List.countP_congr fun b _ => ?_
  rw [Bool.and_eq_true, decide_eq_true_eq, and_comm]
  exact and_congr_right' (beq_iff_eq.trans eq_comm)

/-- A row that is not zero has a bit that is set. -/
theorem exists_testBit_of_ne_zero {v : UInt8} (h : v ≠ 0) :
    ∃ b, b < 8 ∧ v.toNat.testBit (7 - b) = true := by
  have hv : v.toNat ≠ 0 := fun e => h (UInt8.toNat_inj.1 e)
  obtain ⟨i, hi⟩ := Nat.exists_testBit_of_ne_zero hv
  have hlt : i < 8 := by
    by_contra hge
    have hpow : 2 ^ 8 ≤ 2 ^ i := Nat.pow_le_pow_right (by decide) (by omega)
    rw [Nat.testBit_lt_two_pow (Nat.lt_of_lt_of_le v.toNat_lt hpow)] at hi
    exact Bool.false_ne_true hi
  refine ⟨7 - i, by omega, ?_⟩
  rwa [show 7 - (7 - i) = i by omega]

/-- **A sprite names a pixel** once for each bit that falls on it. -/
theorem count_spritePixels (x y : Nat) (rows : List UInt8) (p : Pixel) :
    (spritePixels x y rows).count p =
      ∑ r ∈ range rows.length, ∑ b ∈ range 8,
        if (rows[r]?.getD 0).toNat.testBit (7 - b) ∧ p = Pixel.ofCoords (x + b) (y + r)
          then 1 else 0 := by
  induction rows generalizing y with
  | nil => rfl
  | cons row rows ih =>
    rw [spritePixels, List.count_append, ih, count_rowPixels, List.length_cons,
      sum_range_succ' _ rows.length, add_comm]
    simp only [List.getElem?_cons_succ, List.getElem?_cons_zero, Option.getD_some, Nat.add_zero,
      Nat.add_assoc, Nat.add_comm 1]

end Screen

/-- Only `VF` is set by a flag. -/
theorem Registers.valueAt_setFlag_of_lt (r : Registers) (flag : Bool) {k : Nat}
    (hk : k < flagRegister) : (r.setFlag flag).valueAt k = r.valueAt k := by
  unfold setFlag
  rw [valueAt_write _ _ _ _ (Nat.lt_trans hk (by decide)), if_neg (Nat.ne_of_gt hk)]

/-- A flag is one or zero in `VF`. -/
theorem Registers.toNat_valueAt_setFlag (r : Registers) (flag : Bool) :
    ((r.setFlag flag).valueAt flagRegister).toNat = if flag = true then 1 else 0 := by
  unfold setFlag
  rw [valueAt_write _ _ _ _ (by decide), if_pos rfl]
  cases flag <;> rfl

namespace Snapshot

/-- The bits of the sprite of `n` rows at `I` that fall on a pixel when the sprite is drawn at
column `VX` and row `VY`, each by its row and its column in the sprite. -/
def spriteBits (s : Snapshot) (x y n : Nat) (p : Pixel) : Finset (Nat × Nat) :=
  (Finset.range n ×ˢ Finset.range 8).filter fun (r, b) =>
    (s.memory (s.i + r)).testBit (7 - b) ∧
      p.val = (s.v x + b) % 64 + (s.v y + r) % 32 * 64

/-- How often the sprite hits a pixel. -/
def hits (s : Snapshot) (x y n : Nat) (p : Pixel) : Nat :=
  (s.spriteBits x y n p).card

end Snapshot

namespace Machine

open Finset Instruction

variable {m : Machine} {x y n : Nat}

/-- The pixels that the sprite of a draw instruction names, as often as it hits them. -/
theorem count_spritePixels_eq_hits (m : Machine) (x y n : Nat) (p : Pixel) :
    (Screen.spritePixels (m.registers.valueAt x).toNat (m.registers.valueAt y).toNat
      (m.memory.bytesFrom m.registers.index.toNat n)).count p = m.snapshot.hits x y n p := by
  unfold Snapshot.hits Snapshot.spriteBits
  rw [Screen.count_spritePixels, Memory.length_bytesFrom, card_filter, sum_product]
  refine sum_congr rfl fun r hr => sum_congr rfl fun b _ => ?_
  have hrow : (m.memory.bytesFrom m.registers.index.toNat n)[r]?.getD 0 =
      m.memory.byteAt (m.registers.index.toNat + r) := by
    unfold Memory.bytesFrom
    rw [List.getElem?_map, List.getElem?_range (mem_range.1 hr)]
    rfl
  rw [hrow]
  exact if_congr (and_congr_right' Fin.ext_iff) rfl rfl

/-- A draw instruction whose sprite is inside memory inverts pixels as often as the sprite hits them,
and its flag tells whether a lit pixel was hit on the way. -/
theorem exists_performs_draw_hits (hx : x < 16) (hy : y < 16)
    (hn : m.registers.index.toNat + n ≤ 4096) :
    ∃ screen hit,
      Performs m (draw x y n) { m with screen, registers := m.registers.setFlag hit } .next .redraw
        [] ∧
      (∀ p, screen.isLit p = (m.screen.isLit p ^^ decide (m.snapshot.hits x y n p % 2 = 1))) ∧
      (hit = true ↔ ∃ p, (1 ≤ m.snapshot.hits x y n p ∧ m.screen.isLit p = true) ∨
        2 ≤ m.snapshot.hits x y n p) := by
  refine ⟨_, _, .draw hx hy hn rfl, fun p => ?_, ?_⟩
  · rw [← count_spritePixels_eq_hits]
    exact m.screen.isLit_blit _ p
  · simp only [← count_spritePixels_eq_hits]
    exact m.screen.hit_blit_iff _

/-- A sprite that is not higher than the screen hits no pixel twice. -/
theorem hits_le_one (m : Machine) (x y : Nat) (hn : n ≤ 32) (p : Pixel) :
    m.snapshot.hits x y n p ≤ 1 := by
  rw [← count_spritePixels_eq_hits]
  refine List.nodup_iff_count_le_one.1 (Screen.nodup_spritePixels _ _ ?_) p
  rwa [Memory.length_bytesFrom]

/-- **Drawing as a law of pixels.** A draw instruction whose sprite is inside memory succeeds,
however high the sprite is. Every pixel is inverted as often as the sprite hits it. `VF` becomes 1 if
the sprite hits a pixel that was lit, or hits a pixel twice, and 0 otherwise. Nothing else changes.
A sprite of at most 32 rows hits no pixel twice, so that `VF` becomes 1 if and only if some pixel
goes out. -/
theorem draw_pixel_law (m : Machine) (hx : x < 16) (hy : y < 16)
    (hn : m.registers.index.toNat + n ≤ 4096) :
    ∃ m', (draw x y n).effect.run m = ⟨.ok (.next, .redraw), m', []⟩ ∧
      m'.snapshot =
        { m.snapshot with
          lit := fun p => m.snapshot.lit p ^^ decide (m.snapshot.hits x y n p % 2 = 1)
          v := fun k =>
            if k = 0xF then
              if ∃ p, (1 ≤ m.snapshot.hits x y n p ∧ m.snapshot.lit p = true) ∨
                2 ≤ m.snapshot.hits x y n p then 1 else 0
            else m.snapshot.v k } ∧
      (n ≤ 32 →
        (∀ p, m.snapshot.hits x y n p ≤ 1) ∧
        (m'.snapshot.v 0xF = 1 ↔ ∃ p, m.snapshot.lit p = true ∧ m'.snapshot.lit p = false)) := by
  obtain ⟨screen, hit, hp, hlit, hhit⟩ := exists_performs_draw_hits hx hy hn
  refine ⟨_, run_of_performs hp, ?_, fun hn => ⟨m.hits_le_one x y hn, ?_⟩⟩
  · rw [snapshot_setFlag { m with screen }]
    refine Snapshot.ext rfl (funext fun k => ?_) rfl rfl rfl rfl rfl (funext hlit) rfl rfl rfl rfl rfl
    exact if_congr Iff.rfl (if_congr hhit rfl rfl) rfl
  · have hflag : (if hit = true then 1 else 0) = 1 ↔ hit = true := by
      cases hit <;> simp
    rw [snapshot_setFlag { m with screen }]
    refine hflag.trans (hhit.trans (exists_congr fun p => ?_))
    -- one hit turns a lit pixel off, and a dark one on
    have hle := m.hits_le_one x y hn p
    show _ ↔ m.screen.isLit p = true ∧ screen.isLit p = false
    rw [hlit p]
    rcases Nat.le_one_iff_eq_zero_or_eq_one.1 hle with h | h <;> simp [h]

/-- A row at the place that `VF` itself gives, which is the last pixel of the screen, and lit. -/
theorem draw_pixel_law_last_pixel :
    let m := { boot (.repeating #[]) with
      memory := Memory.blank.poke 0x300 [0xC0]
      registers := (Registers.blank.write 0xF 63).setIndex 0x300
      screen := Screen.blank.toggle (Pixel.ofCoords 63 31) }
    ∃ m', (draw 0xF 0xF 1).effect.run m = ⟨.ok (.next, .redraw), m', []⟩ ∧
      m'.snapshot.lit (Pixel.ofCoords 63 31) = false ∧
      m'.snapshot.lit (Pixel.ofCoords 0 31) = true ∧ m'.snapshot.v 0xF = 1 := by
  intro m
  have hrow : m.memory.bytesFrom 0x300 1 = [0xC0] := by
    have hbyte : m.memory.byteAt 0x300 = 0xC0 :=
      Memory.byteAt_poke Memory.blank 0x300 [0xC0] 0x300 (by decide)
    show [m.memory.byteAt 0x300] = [0xC0]
    rw [hbyte]
  have hhits (p : Pixel) :
      m.snapshot.hits 0xF 0xF 1 p = (Screen.spritePixels 63 63 [0xC0]).count p := by
    rw [← hrow]
    exact (m.count_spritePixels_eq_hits 0xF 0xF 1 p).symm
  obtain ⟨m', hrun, hlaw, hlow⟩ := draw_pixel_law (x := 0xF) (y := 0xF) (n := 1) m (by decide)
    (by decide) (by decide)
  have hlit (p : Pixel) : m'.snapshot.lit p =
      (m.screen.isLit p ^^ decide ((Screen.spritePixels 63 63 [0xC0]).count p % 2 = 1)) := by
    rw [hlaw, ← hhits]
    rfl
  have hscreen (p : Pixel) : m.screen.isLit p = decide (Pixel.ofCoords 63 31 = p) := by
    show (Screen.blank.toggle _).isLit p = _
    rw [Screen.isLit_toggle, Screen.isLit_blank]
    split <;> simp [*]
  have hlast : m.screen.isLit (Pixel.ofCoords 63 31) = true := by
    rw [hscreen]
    decide
  have hfirst : m.screen.isLit (Pixel.ofCoords 0 31) = false := by
    rw [hscreen]
    decide
  have hout : m'.snapshot.lit (Pixel.ofCoords 63 31) = false := by
    rw [hlit, hlast]
    decide
  refine ⟨m', hrun, hout, ?_, ?_⟩
  · rw [hlit, hfirst]
    decide
  · exact (hlow (by decide)).2.2 ⟨_, hlast, hout⟩

/-- **A sprite hits a pixel** if and only if one of its bytes is not zero. -/
theorem exists_hits_iff (m : Machine) (x y n : Nat) :
    (∃ p, 1 ≤ m.snapshot.hits x y n p) ↔
      ∃ r, r < n ∧ m.memory.byteAt (m.registers.index.toNat + r) ≠ 0 := by
  simp only [Snapshot.hits, Nat.one_le_iff_ne_zero, card_ne_zero, Finset.Nonempty,
    Snapshot.spriteBits, mem_filter, mem_product, mem_range, Prod.exists]
  constructor
  · rintro ⟨p, r, b, ⟨hr, -⟩, hbit, -⟩
    refine ⟨r, hr, fun hzero => ?_⟩
    have hbit : (m.memory.byteAt (m.registers.index.toNat + r)).toNat.testBit (7 - b) = true := hbit
    rw [hzero] at hbit
    simp at hbit
  · rintro ⟨r, hr, hbyte⟩
    obtain ⟨b, hb, hbit⟩ := Screen.exists_testBit_of_ne_zero hbyte
    exact ⟨Pixel.ofCoords ((m.registers.valueAt x).toNat + b) ((m.registers.valueAt y).toNat + r), r,
      b, ⟨hr, hb⟩, hbit, rfl⟩

/-- Memory, `I`, `VX` and `VY` are the same, so a draw instruction draws the same sprite at the same
place. -/
structure SameSprite (m m' : Machine) (x y : Nat) : Prop where
  memory : m'.memory = m.memory
  index : m'.registers.index = m.registers.index
  column : m'.registers.valueAt x = m.registers.valueAt x
  row : m'.registers.valueAt y = m.registers.valueAt y

namespace SameSprite

variable {m' m'' : Machine}

theorem trans (h : m.SameSprite m' x y) (h' : m'.SameSprite m'' x y) : m.SameSprite m'' x y :=
  ⟨h'.memory.trans h.memory, h'.index.trans h.index, h'.column.trans h.column, h'.row.trans h.row⟩

/-- The same sprite at the same place hits the same pixels. -/
theorem hits_eq (h : m.SameSprite m' x y) (n : Nat) (p : Pixel) :
    m'.snapshot.hits x y n p = m.snapshot.hits x y n p := by
  refine congrArg card (filter_congr fun (r, b) _ => ?_)
  simp only [snapshot, h.memory, h.index, h.column, h.row]

end SameSprite

/-- **The second machine is the first one after a draw**: pixels are inverted as often as they are
hit, `VF` tells whether a lit pixel was hit on the way, and no other register and no byte of memory
has changed. -/
structure DrawsTo (m m' : Machine) (x y n : Nat) : Prop where
  memory : m'.memory = m.memory
  index : m'.registers.index = m.registers.index
  others : ∀ k, k < 0xF → m'.registers.valueAt k = m.registers.valueAt k
  pixels : ∀ p, m'.screen.isLit p =
    (m.screen.isLit p ^^ decide (m.snapshot.hits x y n p % 2 = 1))
  flag : m'.snapshot.v 0xF =
    if ∃ p, (1 ≤ m.snapshot.hits x y n p ∧ m.screen.isLit p = true) ∨
      2 ≤ m.snapshot.hits x y n p then 1 else 0

/-- A draw instruction whose sprite is inside memory succeeds and draws, however it is invoked. -/
theorem drawsTo_of_invokes {r : Routine Signal} (h : m.Invokes (draw x y n) r) (hx : x < 16)
    (hy : y < 16) (hn : m.registers.index.toNat + n ≤ 4096) :
    (r.run m).result = .ok .redraw ∧ m.DrawsTo (r.run m).machine x y n := by
  obtain ⟨w, hok, pc, timers, toneEnded, hmachine⟩ := h.effect
  obtain ⟨screen, hit, hp, hlit, hhit⟩ :=
    exists_performs_draw_hits (m := { m with opcode := w }) hx hy hn
  rw [run_of_performs hp] at hok hmachine
  refine ⟨hok, ?_⟩
  rw [hmachine]
  refine ⟨rfl, rfl, fun k hk => m.registers.valueAt_setFlag_of_lt hit hk, hlit, ?_⟩
  exact (m.registers.toNat_valueAt_setFlag hit).trans (if_congr hhit rfl rfl)

namespace DrawsTo

variable {m' : Machine}

/-- A draw at a place that `VF` does not give leaves the sprite and the place as they were. -/
theorem sameSprite (h : m.DrawsTo m' x y n) (hx : x < 0xF) (hy : y < 0xF) : m.SameSprite m' x y :=
  ⟨h.memory, h.index, h.others x hx, h.others y hy⟩

/-- The flag of a sprite that hits no pixel twice. -/
theorem flag_of_le (h : m.DrawsTo m' x y n) (hn : n ≤ 32) : m'.snapshot.v 0xF =
    if ∃ p, 1 ≤ m.snapshot.hits x y n p ∧ m.screen.isLit p = true then 1 else 0 := by
  refine h.flag.trans (if_congr (exists_congr fun p => or_iff_left ?_) rfl rfl)
  exact Nat.not_le_of_lt (Nat.lt_succ_of_le (m.hits_le_one x y hn p))

/-- A pixel of such a sprite is lit afterwards if it was dark before. -/
theorem isLit_iff_of_hit (h : m.DrawsTo m' x y n) (hn : n ≤ 32) {p : Pixel}
    (hp : 1 ≤ m.snapshot.hits x y n p) : m'.screen.isLit p = true ↔ m.screen.isLit p = false := by
  have hle := m.hits_le_one x y hn p
  have hodd : m.snapshot.hits x y n p % 2 = 1 := by omega
  rw [h.pixels, decide_eq_true hodd, Bool.xor_true, Bool.not_eq_true']

end DrawsTo

/-- **Drawing twice.** A sprite of at most 15 rows inside memory is drawn twice at a place that `VF`
does not give, each time by the instruction itself, by a cycle or by a step. In between, anything may
happen that leaves memory, `I`, `VX`, `VY` and the screen alone. Both draws succeed, and the second
one restores the screen. `VF` is 1 after the first draw if some pixel of the sprite was lit at first,
and after the second one if some pixel of the sprite was dark at first. So one of them reports a hit
if the sprite has a bit that is set, and neither does if it has none. -/
theorem draw_twice {m m' : Machine} {first second : Routine Signal} (hx : x < 0xF) (hy : y < 0xF)
    (hn : n ≤ 15) (hin : m.registers.index.toNat + n ≤ 4096)
    (hfirst : m.Invokes (draw x y n) first) (hsecond : m'.Invokes (draw x y n) second)
    (hsprite : (first.run m).machine.SameSprite m' x y)
    (hscreen : m'.screen = (first.run m).machine.screen) :
    (first.run m).result = .ok .redraw ∧ (second.run m').result = .ok .redraw ∧
      (second.run m').machine.screen = m.screen ∧
      ((first.run m).machine.snapshot.v 0xF =
        if ∃ p, 1 ≤ m.snapshot.hits x y n p ∧ m.screen.isLit p = true then 1 else 0) ∧
      ((second.run m').machine.snapshot.v 0xF =
        if ∃ p, 1 ≤ m.snapshot.hits x y n p ∧ m.screen.isLit p = false then 1 else 0) ∧
      ((∃ r, r < n ∧ m.memory.byteAt (m.registers.index.toNat + r) ≠ 0) →
        (first.run m).machine.snapshot.v 0xF = 1 ∨ (second.run m').machine.snapshot.v 0xF = 1) ∧
      ((∀ r, r < n → m.memory.byteAt (m.registers.index.toNat + r) = 0) →
        (first.run m).machine.snapshot.v 0xF = 0 ∧ (second.run m').machine.snapshot.v 0xF = 0) := by
  have hlow : n ≤ 32 := by omega
  obtain ⟨hok, hdrawn⟩ := drawsTo_of_invokes hfirst (by omega) (by omega) hin
  have hsame := (hdrawn.sameSprite hx hy).trans hsprite
  obtain ⟨hok', hdrawn'⟩ :=
    drawsTo_of_invokes hsecond (by omega) (by omega) (by rwa [hsame.index])
  have hflag := hdrawn.flag_of_le hlow
  -- the second draw meets the pixels that the first one has inverted
  have hflag' : (second.run m').machine.snapshot.v 0xF =
      if ∃ p, 1 ≤ m.snapshot.hits x y n p ∧ m.screen.isLit p = false then 1 else 0 := by
    refine (hdrawn'.flag_of_le hlow).trans (if_congr (exists_congr fun p => ?_) rfl rfl)
    rw [hsame.hits_eq, hscreen]
    exact and_congr_right fun hp => hdrawn.isLit_iff_of_hit hlow hp
  refine ⟨hok, hok', ?_, hflag, hflag', fun hset => ?_, fun hzero => ?_⟩
  · apply Screen.ext_isLit
    intro p
    rw [hdrawn'.pixels, hsame.hits_eq, hscreen, hdrawn.pixels, Bool.xor_assoc, Bool.xor_self,
      Bool.xor_false]
  · obtain ⟨p, hp⟩ := (m.exists_hits_iff x y n).2 hset
    rw [hflag, hflag']
    cases hpixel : m.screen.isLit p with
    | true => exact .inl (if_pos ⟨p, hp, hpixel⟩)
    | false => exact .inr (if_pos ⟨p, hp, hpixel⟩)
  · have hnone (p : Pixel) : ¬ 1 ≤ m.snapshot.hits x y n p := by
      intro hp
      obtain ⟨r, hr, hbyte⟩ := (m.exists_hits_iff x y n).1 ⟨p, hp⟩
      exact hbyte (hzero r hr)
    rw [hflag, hflag']
    exact ⟨if_neg fun ⟨p, hp, _⟩ => hnone p hp, if_neg fun ⟨p, hp, _⟩ => hnone p hp⟩

/-- Two cycles draw the code that they come from on the dark screen. -/
theorem draw_twice_own_code :
    let m := { boot (.repeating #[]) with
      memory := Memory.blank.poke programStart [0xD0, 0x12, 0xD0, 0x12]
      registers := Registers.blank.setIndex 0x200 }
    let drawn := (execute.run m).machine
    (execute.run m).result = .ok .redraw ∧ (execute.run drawn).result = .ok .redraw ∧
      (execute.run drawn).machine.screen = m.screen ∧ drawn.snapshot.v 0xF = 0 ∧
      (execute.run drawn).machine.snapshot.v 0xF = 1 := by
  intro m drawn
  have hholds {k : Nat} (hk : k = 0 ∨ k = 2) : m.memory.Holds (programStart + k) (draw 0 1 2) := by
    rcases hk with rfl | rfl
    · exact ⟨_, Memory.blank.readWord_program (k := 0) (by decide) rfl rfl, rfl⟩
    · exact ⟨_, Memory.blank.readWord_program (k := 2) (by decide) rfl rfl, rfl⟩
  have hbyte : m.memory.byteAt 0x200 = 0xD0 :=
    Memory.byteAt_poke Memory.blank 0x200 [0xD0, 0x12, 0xD0, 0x12] 0x200 (by decide)
  have hindex : m.registers.index.toNat = 0x200 := by decide
  have hin : m.registers.index.toNat + 2 ≤ 4096 := by
    rw [hindex]
    decide
  have hstart : m.pc = programStart := rfl
  have hblank : m.screen = .blank := rfl
  clear_value m
  have hfirst : m.Invokes (draw 0 1 2) execute := .cycle (hstart ▸ hholds (.inl rfl))
  have hdrawn := (drawsTo_of_invokes hfirst (by decide) (by decide) hin).2
  have hpc : drawn.pc = programStart + 2 := by
    obtain ⟨w, hw, hd⟩ := hholds (.inl rfl)
    obtain ⟨screen, hit, hp, -⟩ := exists_performs_draw_hits (m := { m with opcode := w }) (x := 0)
      (y := 1) (by decide) (by decide) hin
    rw [← hstart]
    show (execute.run m).machine.pc = _
    rw [run_of_executes (.performed (hstart ▸ hw) hd hp)]
    rfl
  have hsecond : drawn.Invokes (draw 0 1 2) execute := by
    refine .cycle ?_
    rw [hpc, hdrawn.memory]
    exact hholds (.inr rfl)
  obtain ⟨hok, hok', hscreen, hflag, -, hset, -⟩ := draw_twice (by decide) (by decide)
    (by decide) hin hfirst hsecond ⟨rfl, rfl, rfl, rfl⟩ rfl
  have hdark : drawn.snapshot.v 0xF = 0 := by
    refine hflag.trans (if_neg fun ⟨p, _, hp⟩ => ?_)
    rw [hblank, Screen.isLit_blank] at hp
    exact Bool.false_ne_true hp
  have hreported := hset ⟨0, by decide, by rw [Nat.add_zero, hindex, hbyte]; decide⟩
  refine ⟨hok, hok', hscreen, hdark, hreported.resolve_left fun h => ?_⟩
  exact Nat.zero_ne_one (hdark.symm.trans h)

end Machine

end Chip8
