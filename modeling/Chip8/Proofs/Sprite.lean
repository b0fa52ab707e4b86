import Chip8.Screen
import Mathlib.Data.List.Nodup

/-!
# The pixels of a sprite

A sprite is eight pixels wide and wraps around at the edges of the screen. Up to the height of the
screen it names no pixel twice, so drawing it inverts exactly its pixels.

* `ofCoords_inj`: which coordinates name the same pixel.
* `mem_spritePixels`: the pixels of a sprite, by row and column.
* `nodup_spritePixels`: a sprite that is not higher than the screen names no pixel twice.
* `isLit_drawSprite_ne_iff`: such a sprite inverts its pixels and no others.
-/

namespace Chip8

/-- **Coordinates name the same pixel** if they agree modulo the size of the screen. -/
theorem Pixel.ofCoords_inj {x y x' y' : Nat} :
    Pixel.ofCoords x y = Pixel.ofCoords x' y' ↔
      x % screenWidth = x' % screenWidth ∧ y % screenHeight = y' % screenHeight := by
  unfold Pixel.ofCoords
  simp only [Fin.mk.injEq, screenWidth, screenHeight]
  constructor
  · intro h
    omega
  · rintro ⟨hx, hy⟩
    rw [hx, hy]

namespace Screen

variable {x y : Nat} {row : UInt8} {rows : List UInt8} {p : Pixel}

theorem mem_rowPixels :
    p ∈ rowPixels x y row ↔
      ∃ c, c < spriteWidth ∧ row.toNat.testBit (spriteWidth - 1 - c) = true ∧
        p = Pixel.ofCoords (x + c) y := by
  unfold rowPixels
  simp only [List.mem_map, List.mem_filter, List.mem_range]
  constructor
  · rintro ⟨c, ⟨hc, hbit⟩, rfl⟩
    exact ⟨c, hc, hbit, rfl⟩
  · rintro ⟨c, hc, hbit, rfl⟩
    exact ⟨c, ⟨hc, hbit⟩, rfl⟩

/-- **The pixels of a sprite**: one for each bit that is set, by row and column. -/
theorem mem_spritePixels :
    p ∈ spritePixels x y rows ↔
      ∃ r c row, rows[r]? = some row ∧ c < spriteWidth ∧
        row.toNat.testBit (spriteWidth - 1 - c) = true ∧ p = Pixel.ofCoords (x + c) (y + r) := by
  induction rows generalizing y with
  | nil => simp [spritePixels]
  | cons first rows ih =>
    rw [spritePixels, List.mem_append, mem_rowPixels, ih]
    constructor
    · rintro (⟨c, hc, hbit, hp⟩ | ⟨r, c, row, hrow, hc, hbit, hp⟩)
      · exact ⟨0, c, first, rfl, hc, hbit, hp⟩
      · have hy : y + 1 + r = y + (r + 1) := by omega
        exact ⟨r + 1, c, row, hrow, hc, hbit, hy ▸ hp⟩
    · rintro ⟨r, c, row, hrow, hc, hbit, hp⟩
      cases r with
      | zero =>
        obtain rfl : first = row := Option.some.inj hrow
        exact .inl ⟨c, hc, hbit, hp⟩
      | succ r =>
        have hy : y + (r + 1) = y + 1 + r := by omega
        exact .inr ⟨r, c, row, hrow, hc, hbit, hy ▸ hp⟩

/-- A row is not wider than the screen, so it names no pixel twice. -/
theorem nodup_rowPixels (x y : Nat) (row : UInt8) : (rowPixels x y row).Nodup := by
  unfold rowPixels
  refine (List.nodup_range.filter _).map_on fun c hc c' hc' h => ?_
  have hlt := List.mem_range.1 (List.mem_filter.1 hc).1
  have hlt' := List.mem_range.1 (List.mem_filter.1 hc').1
  have hcolumn := (Pixel.ofCoords_inj.1 h).1
  simp only [spriteWidth, screenWidth] at hlt hlt' hcolumn
  omega

/-- **A sprite that is not higher than the screen** names no pixel twice. -/
theorem nodup_spritePixels (x y : Nat) (h : rows.length ≤ screenHeight) :
    (spritePixels x y rows).Nodup := by
  induction rows generalizing y with
  | nil => exact List.nodup_nil
  | cons row rows ih =>
    rw [List.length_cons] at h
    rw [spritePixels, List.nodup_append]
    refine ⟨nodup_rowPixels x y row, ih (y + 1) (by omega), ?_⟩
    -- a later row is less than a screen below this one
    intro p hp q hq heq
    obtain ⟨c, -, -, hp⟩ := mem_rowPixels.1 hp
    obtain ⟨r, c', row', hrow, -, -, hq⟩ := mem_spritePixels.1 hq
    have hr : r < rows.length := (List.getElem?_eq_some_iff.1 hrow).1
    have hrows := (Pixel.ofCoords_inj.1 (hp.symm.trans (heq.trans hq))).2
    simp only [screenHeight] at h hrows
    omega

/-- **Drawing a sprite** that is not higher than the screen inverts its pixels and no others. -/
theorem isLit_drawSprite_ne_iff (s : Screen) (h : rows.length ≤ screenHeight) :
    (s.drawSprite x y rows).1.isLit p ≠ s.isLit p ↔ p ∈ spritePixels x y rows := by
  unfold drawSprite
  rw [isLit_blit, (nodup_spritePixels x y h).count]
  by_cases hp : p ∈ spritePixels x y rows
  · simp [hp]
  · simp [hp]

end Screen

end Chip8
