import Chip8.Proofs.Sprite
import Mathlib.Data.List.Forall2

/-!
# Drawing as an action on the screen

Drawing inverts pixels, so what is drawn in any order gives one screen, and what is drawn twice
leaves no trace. A drawing reports whether it turned a pixel off, which the number of lit pixels
shows as well.

* `hit_blit_iff`: a drawing turns a pixel off if it names one that is lit, or names one twice.
* `hit_blit_iff_lit`: it does so if fewer pixels are lit afterwards than were lit before and named
  together.
* `drawRows_action`: sprite rows commute, undo themselves, wrap around, and report by the number of
  lit pixels.
-/

namespace Chip8

namespace Screen

variable {s : Screen} {p : Pixel} {ps : List Pixel}

/-- A drawing goes on from the screen and the report that it has come to. -/
theorem foldl_blit (acc : Screen × Bool) (ps : List Pixel) :
    ps.foldl (fun acc p => (acc.1.toggle p, acc.2 || acc.1.isLit p)) acc =
      ((acc.1.blit ps).1, acc.2 || (acc.1.blit ps).2) := by
  induction ps generalizing acc with
  | nil => simp [blit]
  | cons p ps ih =>
    have hblit : acc.1.blit (p :: ps) =
        ps.foldl (fun acc p => (acc.1.toggle p, acc.2 || acc.1.isLit p))
          (acc.1.toggle p, false || acc.1.isLit p) := rfl
    rw [List.foldl_cons, hblit, ih, ih, Bool.false_or, Bool.or_assoc]

/-- The first pixel is inverted, and the others are drawn on the screen that this leaves. -/
theorem blit_cons (s : Screen) (p : Pixel) (ps : List Pixel) :
    s.blit (p :: ps) = (((s.toggle p).blit ps).1, s.isLit p || ((s.toggle p).blit ps).2) :=
  foldl_blit (s.toggle p, s.isLit p) ps

/-- **A drawing turns a pixel off** if it names one that is lit, or names one twice. -/
theorem hit_blit_iff (s : Screen) (ps : List Pixel) :
    (s.blit ps).2 = true ↔ ∃ p, (1 ≤ ps.count p ∧ s.isLit p = true) ∨ 2 ≤ ps.count p := by
  induction ps generalizing s with
  | nil => simp [blit]
  | cons p ps ih =>
    rw [blit_cons, Bool.or_eq_true, ih]
    constructor
    · rintro (hlit | ⟨q, hq⟩)
      · exact ⟨p, .inl ⟨by simp, hlit⟩⟩
      · by_cases hpq : p = q
        · -- a pixel that is named again after it was first inverted
          subst hpq
          refine ⟨p, .inr ?_⟩
          rw [List.count_cons_self]
          omega
        · rw [isLit_toggle, if_neg hpq] at hq
          refine ⟨q, ?_⟩
          rwa [List.count_cons_of_ne hpq]
    · rintro ⟨q, hq⟩
      by_cases hpq : p = q
      · subst hpq
        by_cases hlit : s.isLit p = true
        · exact .inl hlit
        · -- a dark pixel that is named twice is lit when it is named again
          have htwice : 2 ≤ ps.count p + 1 := by
            rw [List.count_cons_self] at hq
            exact hq.resolve_left fun h => hlit h.2
          refine .inr ⟨p, .inl ⟨?_, ?_⟩⟩
          · omega
          · rw [isLit_toggle, if_pos rfl]
            simpa using hlit
      · refine .inr ⟨q, ?_⟩
        rw [isLit_toggle, if_neg hpq]
        rwa [List.count_cons_of_ne hpq] at hq

theorem toggle_toggle (s : Screen) (p : Pixel) : (s.toggle p).toggle p = s := by
  apply ext_isLit
  intro q
  by_cases h : p = q <;> simp [isLit_toggle, h]

theorem mem_lit : p ∈ s.lit ↔ s.isLit p = true := by
  simp [lit]

/-- A pixel that lights up is one more lit pixel. -/
theorem length_lit_toggle_of_dark (h : s.isLit p = false) :
    (s.toggle p).lit.length = s.lit.length + 1 := by
  have hnodup (s : Screen) : s.lit.Nodup := (List.nodup_finRange screenSize).filter _
  have hp : p ∉ s.lit := by simp [mem_lit, h]
  have hperm : (s.toggle p).lit.Perm (p :: s.lit) := by
    rw [List.perm_ext_iff_of_nodup (hnodup _) (List.nodup_cons.2 ⟨hp, hnodup s⟩)]
    intro q
    rw [List.mem_cons, mem_lit, mem_lit, isLit_toggle]
    by_cases hpq : p = q
    · simp [← hpq, h]
    · simp [hpq, Ne.symm hpq]
  rw [hperm.length_eq, List.length_cons]

/-- A pixel that goes out is one lit pixel less. -/
theorem length_lit_toggle_of_lit (h : s.isLit p = true) :
    (s.toggle p).lit.length + 1 = s.lit.length := by
  have hdark : (s.toggle p).isLit p = false := by
    rw [isLit_toggle, if_pos rfl, h]
    rfl
  have hlight := length_lit_toggle_of_dark hdark
  rw [toggle_toggle] at hlight
  exact hlight.symm

/-- At most the pixels that a drawing names light up. -/
theorem length_lit_blit_le (s : Screen) (ps : List Pixel) :
    (s.blit ps).1.lit.length ≤ s.lit.length + ps.length := by
  induction ps generalizing s with
  | nil => simp [blit]
  | cons p ps ih =>
    rw [blit_cons, List.length_cons]
    dsimp only
    have hrest := ih (s.toggle p)
    by_cases h : s.isLit p = true
    · have htoggle := length_lit_toggle_of_lit h
      omega
    · have htoggle := length_lit_toggle_of_dark (Bool.eq_false_iff.2 h)
      omega

/-- **The report of a drawing by the number of lit pixels**: it turned a pixel off if fewer are lit
afterwards than were lit before and named by the drawing together. -/
theorem hit_blit_iff_lit (s : Screen) (ps : List Pixel) :
    (s.blit ps).2 = true ↔ (s.blit ps).1.lit.length < s.lit.length + ps.length := by
  induction ps generalizing s with
  | nil => simp [blit]
  | cons p ps ih =>
    rw [blit_cons, Bool.or_eq_true, ih, List.length_cons]
    dsimp only
    by_cases h : s.isLit p = true
    · -- the pixel that goes out cannot be made up for
      have htoggle := length_lit_toggle_of_lit h
      have hrest := (s.toggle p).length_lit_blit_le ps
      simp only [h, true_or, true_iff]
      omega
    · have htoggle := length_lit_toggle_of_dark (Bool.eq_false_iff.2 h)
      simp only [h, Bool.false_eq_true, false_or, htoggle]
      omega

end Screen

/-- A row of a sprite, and where its left end is. -/
structure SpriteRow where
  x : Nat
  y : Nat
  bits : UInt8

namespace SpriteRow

/-- The same row with its left end on the screen. -/
def wrapped (r : SpriteRow) : SpriteRow :=
  { r with x := r.x % 64, y := r.y % 32 }

/-- The number of bits that are set. -/
def setBits (r : SpriteRow) : Nat :=
  (List.range 8).countP r.bits.toNat.testBit

/-- The pixels of the row. -/
def pixels (r : SpriteRow) : List Pixel :=
  Screen.rowPixels r.x r.y r.bits

theorem pixels_wrapped (r : SpriteRow) : r.wrapped.pixels = r.pixels := by
  unfold pixels wrapped Screen.rowPixels
  refine List.map_congr_left fun c _ => ?_
  rw [Pixel.ofCoords_inj]
  exact ⟨Nat.mod_add_mod r.x 64 c, Nat.mod_mod r.y 32⟩

/-- A row has a pixel for each bit that is set. -/
theorem length_pixels (r : SpriteRow) : r.pixels.length = r.setBits := by
  unfold pixels setBits Screen.rowPixels
  rw [List.length_map, ← List.countP_eq_length_filter, ← List.countP_reverse,
    List.range_eq_range', List.reverse_range', List.countP_map]
  rfl

end SpriteRow

namespace Screen

/-- Draws sprite rows one after the other; also whether each of them turned a pixel off. -/
def drawRows (s : Screen) : List SpriteRow → Screen × List Bool
  | [] => (s, [])
  | r :: rs =>
    let drawn := s.drawRow r.x r.y r.bits
    let rest := drawn.1.drawRows rs
    (rest.1, drawn.2 :: rest.2)

theorem drawRow_eq_blit (s : Screen) (r : SpriteRow) :
    s.drawRow r.x r.y r.bits = s.blit r.pixels :=
  rfl

/-- A drawing in two parts. -/
theorem blit_append (s : Screen) (ps qs : List Pixel) :
    (s.blit (ps ++ qs)).1 = ((s.blit ps).1.blit qs).1 := by
  simp only [blit_fst, List.foldl_append]

/-- The screen after some rows is the one after all their pixels. -/
theorem drawRows_fst (s : Screen) (rows : List SpriteRow) :
    (s.drawRows rows).1 = (s.blit (rows.flatMap SpriteRow.pixels)).1 := by
  induction rows generalizing s with
  | nil => rfl
  | cons r rows ih =>
    rw [drawRows, List.flatMap_cons, blit_append, ← drawRow_eq_blit]
    exact ih _

/-- **Rows invert a pixel** as often as they have a bit on it. -/
theorem isLit_drawRows (s : Screen) (rows : List SpriteRow) (p : Pixel) :
    (s.drawRows rows).1.isLit p =
      (s.isLit p ^^ decide ((rows.flatMap SpriteRow.pixels).count p % 2 = 1)) := by
  rw [drawRows_fst, isLit_blit]

/-- Rows in another order give the same screen. -/
theorem drawRows_perm (s : Screen) {rows rows' : List SpriteRow} (h : rows.Perm rows') :
    (s.drawRows rows').1 = (s.drawRows rows).1 := by
  apply ext_isLit
  intro p
  have hcount := (h.flatMap_right SpriteRow.pixels).count_eq p
  rw [isLit_drawRows, isLit_drawRows, hcount]

/-- Rows that are drawn again, in whatever order, are undone. -/
theorem drawRows_append_perm (s : Screen) {rows rows' : List SpriteRow} (h : rows.Perm rows') :
    (s.drawRows (rows ++ rows')).1 = s := by
  apply ext_isLit
  intro p
  have hcount := (h.flatMap_right SpriteRow.pixels).count_eq p
  have heven : ((rows ++ rows').flatMap SpriteRow.pixels).count p % 2 ≠ 1 := by
    rw [List.flatMap_append, List.count_append, ← hcount]
    omega
  rw [isLit_drawRows, decide_eq_false heven, Bool.xor_false]

/-- Rows that begin anywhere are drawn, and report, as rows that begin on the screen. -/
theorem drawRows_wrapped (s : Screen) {rows rows' : List SpriteRow}
    (h : List.Forall₂ (fun r r' => r' = r ∨ r' = r.wrapped) rows rows') :
    s.drawRows rows' = s.drawRows rows := by
  induction h generalizing s with
  | nil => rfl
  | @cons r r' rows rows' hr _ ih =>
    have hrow : s.drawRow r'.x r'.y r'.bits = s.drawRow r.x r.y r.bits := by
      rcases hr with rfl | rfl
      · rfl
      · rw [drawRow_eq_blit, drawRow_eq_blit, SpriteRow.pixels_wrapped]
    rw [drawRows, drawRows, hrow, ih]

/-- **Sprite rows act on the screen as a commutative group of involutions.** In any order, some rows
give the same screen. Drawn again in any order, they restore the screen. Any of them may be moved
to the column modulo 64 and the row modulo 32 where it begins, without a change of the screen or of
what is reported. On every screen a row reports true if and only if fewer pixels are lit afterwards
than were lit before and the row has bits set together. -/
theorem drawRows_action (s : Screen) (rows rows' : List SpriteRow) :
    (rows.Perm rows' → (s.drawRows rows').1 = (s.drawRows rows).1) ∧
    (rows.Perm rows' → (s.drawRows (rows ++ rows')).1 = s) ∧
    (List.Forall₂ (fun r r' => r' = r ∨ r' = r.wrapped) rows rows' →
      s.drawRows rows' = s.drawRows rows) ∧
    ∀ r : SpriteRow, (s.drawRow r.x r.y r.bits).2 = true ↔
      (s.drawRow r.x r.y r.bits).1.lit.length < s.lit.length + r.setBits := by
  refine ⟨s.drawRows_perm, s.drawRows_append_perm, s.drawRows_wrapped, fun r => ?_⟩
  rw [drawRow_eq_blit, ← r.length_pixels]
  exact s.hit_blit_iff_lit r.pixels

/-- Two rows that meet in a pixel behind the right edge, the first one begun below the screen. -/
theorem drawRows_action_overlap :
    let row : SpriteRow := ⟨62, 33, 0xF0⟩
    let dot : SpriteRow := ⟨0, 1, 0x80⟩
    [row, dot].Perm [dot, row] ∧
      (blank.drawRows [dot, row]).1 = (blank.drawRows [row, dot]).1 ∧
      (blank.drawRows [row, dot, dot, row]).1 = blank ∧
      blank.drawRows [⟨62, 1, 0xF0⟩, dot] = blank.drawRows [row, dot] ∧
      (blank.drawRows [row, dot]).2 = [false, true] ∧
      (blank.drawRows [row, dot]).1.isLit (Pixel.ofCoords 63 1) = true ∧
      (blank.drawRows [row, dot]).1.isLit (Pixel.ofCoords 0 1) = false := by
  intro row dot
  have hswap : [row, dot].Perm [dot, row] := .swap dot row []
  have hwrapped : List.Forall₂ (fun r r' => r' = r ∨ r' = r.wrapped) [row, dot]
      [⟨62, 1, 0xF0⟩, dot] := by
    refine .cons (.inr ?_) (.cons (.inl rfl) .nil)
    simp [row, SpriteRow.wrapped]
  obtain ⟨hperm, hback, -, -⟩ := drawRows_action blank [row, dot] [dot, row]
  obtain ⟨-, -, hmoved, -⟩ := drawRows_action blank [row, dot] [⟨62, 1, 0xF0⟩, dot]
  refine ⟨hswap, hperm hswap, hback hswap, hmoved hwrapped, ?_, ?_, ?_⟩ <;> decide

end Screen

end Chip8
