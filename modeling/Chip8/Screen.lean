import Chip8.Parameters

/-!
# Screen

A monochrome screen of 64 by 32 pixels. Coordinates beyond an edge come back in at the opposite
one. Sprites are drawn by inverting pixels, and a drawing reports whether it turned one off.

* `isLit_toggle`: inverting a pixel changes that pixel alone.
* `isLit_blit`: a drawing inverts a pixel as often as it names it.
-/

namespace Chip8

/-- A pixel, numbered row by row from the top left corner. -/
abbrev Pixel := Fin screenSize

/-- The pixel in column `x` and row `y`, both taken modulo the size of the screen. -/
def Pixel.ofCoords (x y : Nat) : Pixel :=
  ⟨x % screenWidth + y % screenHeight * screenWidth, by
    have hx := Nat.mod_lt x (show 0 < screenWidth by decide)
    have hy := Nat.mod_lt y (show 0 < screenHeight by decide)
    simp only [screenSize, screenWidth, screenHeight] at *
    omega⟩

/-- Which pixels are lit. -/
structure Screen where
  pixels : Vector Bool screenSize
deriving DecidableEq

namespace Screen

/-- The dark screen. -/
def blank : Screen :=
  ⟨Vector.replicate screenSize false⟩

/-- Whether a pixel is lit. -/
def isLit (s : Screen) (p : Pixel) : Bool :=
  s.pixels[p]

/-- Inverts a pixel. -/
def toggle (s : Screen) (p : Pixel) : Screen :=
  ⟨s.pixels.set p (!s.pixels[p])⟩

/-- Inverts pixels one after the other; also whether one of them was lit when its turn came. -/
def blit (s : Screen) (ps : List Pixel) : Screen × Bool :=
  ps.foldl (fun (s, hit) p => (s.toggle p, hit || s.isLit p)) (s, false)

/-- The pixels of a sprite row whose left end is at `(x, y)`; the highest bit is leftmost. -/
def rowPixels (x y : Nat) (row : UInt8) : List Pixel :=
  ((List.range spriteWidth).filter fun i => row.toNat.testBit (spriteWidth - 1 - i)).map fun i =>
    Pixel.ofCoords (x + i) y

/-- The pixels of a sprite whose top left corner is at `(x, y)`, row by row. -/
def spritePixels (x : Nat) : Nat → List UInt8 → List Pixel
  | _, [] => []
  | y, row :: rows => rowPixels x y row ++ spritePixels x (y + 1) rows

/-- Draws a sprite row; also whether it turned a pixel off. -/
def drawRow (s : Screen) (x y : Nat) (row : UInt8) : Screen × Bool :=
  s.blit (rowPixels x y row)

/-- Draws a sprite; also whether it turned a pixel off. -/
def drawSprite (s : Screen) (x y : Nat) (rows : List UInt8) : Screen × Bool :=
  s.blit (spritePixels x y rows)

/-- Whether the pixel in column `x` and row `y` is lit. -/
def cell (s : Screen) (x y : Nat) : Bool :=
  s.isLit (Pixel.ofCoords x y)

/-- The `len` pixels from `(x, y)` on to the right. -/
def region (s : Screen) (x y len : Nat) : List Bool :=
  (List.range len).map fun i => s.cell (x + i) y

/-- The rows from top to bottom. -/
def rows (s : Screen) : List (List Bool) :=
  (List.range screenHeight).map fun y => s.region 0 y screenWidth

/-- The lit pixels in ascending order. -/
def lit (s : Screen) : List Pixel :=
  (List.finRange screenSize).filter s.isLit

theorem ext_isLit {s s' : Screen} (h : ∀ p, s.isLit p = s'.isLit p) : s = s' := by
  obtain ⟨v⟩ := s
  obtain ⟨v'⟩ := s'
  congr 1
  apply Vector.ext
  intro i hi
  simpa [isLit] using h ⟨i, hi⟩

@[simp]
theorem isLit_blank (p : Pixel) : blank.isLit p = false := by
  simp [isLit, blank]

/-- Inverting a pixel changes that pixel alone. -/
theorem isLit_toggle (s : Screen) (p q : Pixel) :
    (s.toggle p).isLit q = if p = q then !s.isLit q else s.isLit q := by
  simp only [isLit, toggle, Fin.getElem_fin, Vector.getElem_set, Fin.val_inj]
  split
  · subst_vars
    rfl
  · rfl

theorem blit_fst (s : Screen) (ps : List Pixel) : (s.blit ps).1 = ps.foldl toggle s := by
  suffices ∀ (s : Screen) hit, (ps.foldl (fun (acc : Screen × Bool) p =>
      (acc.1.toggle p, acc.2 || acc.1.isLit p)) (s, hit)).1 = ps.foldl toggle s from this s false
  induction ps with
  | nil => intros; rfl
  | cons p ps ih => exact fun s hit => ih _ _

/-- **A drawing inverts a pixel as often as it names it.** -/
theorem isLit_blit (s : Screen) (ps : List Pixel) (q : Pixel) :
    (s.blit ps).1.isLit q = (s.isLit q ^^ decide (ps.count q % 2 = 1)) := by
  rw [blit_fst]
  induction ps generalizing s with
  | nil => simp
  | cons p ps ih =>
    rw [List.foldl_cons, ih, isLit_toggle, List.count_cons]
    by_cases h : p = q
    · rcases Nat.mod_two_eq_zero_or_one (ps.count q) with e | e <;>
        simp [h, e, Nat.add_mod]
    · simp [h]

end Screen

end Chip8
