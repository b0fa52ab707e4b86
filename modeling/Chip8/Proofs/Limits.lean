import Chip8.Proofs.Rules

/-!
# Operations with limits

Sums, products and uses of tables that have a result only inside a limit: a sum or product is kept by
64 bits, an entry of a table exists, a part of a table lies inside, and a copy has as many entries on
both sides.

* `setFrom?_of_le`: what entries hold after some of them were replaced.
* `Registers.copyInto?_values`, `Keypad.copyInto?_keys`, `Memory.copyInto?_bytes`: copies that keep
  the limit, and what they come to.
* `Screen.drawSprite?_eq`: a drawing pixel by pixel keeps all limits, and draws the sprite.
-/

namespace Chip8

/-- The sum of two addresses or coordinates, if 64 bits keep it. -/
def sum? (a b : Nat) : Option Nat :=
  if a + b < UInt64.size then some (a + b) else none

/-- The product of two numbers, if 64 bits keep it. -/
def product? (a b : Nat) : Option Nat :=
  if a * b < UInt64.size then some (a * b) else none

theorem sum?_of_lt {a b : Nat} (h : a + b < UInt64.size) : sum? a b = some (a + b) :=
  if_pos h

theorem product?_of_lt {a b : Nat} (h : a * b < UInt64.size) : product? a b = some (a * b) :=
  if_pos h

section Tables

variable {α : Type} {n : Nat}

/-- The table with another value in entry `i`, if there is one. -/
def setAt? (v : Vector α n) (i : Nat) (a : α) : Option (Vector α n) :=
  if h : i < n then some (v.set i a) else none

/-- The table with other values in its entries from `i` on, one after the other, if there are so
many. -/
def setFrom? (v : Vector α n) (i : Nat) : List α → Option (Vector α n)
  | [] => some v
  | a :: as => do
    let v ← setAt? v i a
    setFrom? v (i + 1) as

/-- The entries from `first` up to `last`, if they all exist. -/
def part? (l : List α) (first last : Nat) : Option (List α) :=
  if first ≤ last ∧ last ≤ l.length then some ((l.take last).drop first) else none

/-- The table with the source copied over its entries from `first` up to `last`, if these exist and
are as many. -/
def copyInto? (v : Vector α n) (first last : Nat) (source : List α) : Option (Vector α n) :=
  if first ≤ last ∧ last ≤ n ∧ source.length = last - first then setFrom? v first source else none

theorem setAt?_of_lt (v : Vector α n) {i : Nat} (a : α) (h : i < n) :
    setAt? v i a = some (v.set i a) :=
  dif_pos h

theorem part?_of_le {l : List α} {first last : Nat} (h : first ≤ last) (hl : last ≤ l.length) :
    part? l first last = some ((l.take last).drop first) :=
  if_pos ⟨h, hl⟩

/-- **Replaced entries** hold the new values, and every other one is as before. -/
theorem setFrom?_of_le (v : Vector α n) (i : Nat) (as : List α) (h : i + as.length ≤ n) :
    setFrom? v i as =
      some (Vector.ofFn fun j => if i ≤ j.val then as[j.val - i]?.getD v[j] else v[j]) := by
  induction as generalizing v i with
  | nil => simp [setFrom?]
  | cons a as ih =>
    rw [List.length_cons] at h
    have hi : i < n := by omega
    rw [setFrom?, setAt?_of_lt v a hi, Option.bind_eq_bind, Option.bind_some,
      ih _ _ (by omega)]
    congr 1
    apply Vector.ext
    intro j hj
    simp only [Vector.getElem_ofFn, Fin.getElem_fin, Vector.getElem_set]
    rcases Nat.lt_trichotomy i j with hlt | rfl | hgt
    · have hsub : j - i = j - (i + 1) + 1 := by omega
      simp [hsub, Nat.le_of_lt hlt, Nat.succ_le_of_lt hlt, Nat.ne_of_lt hlt]
    · rw [if_pos (Nat.le_refl i), if_neg (Nat.not_succ_le_self i), if_pos rfl, Nat.sub_self]
      rfl
    · simp [Nat.not_le_of_lt hgt, Nat.not_le_of_lt (Nat.lt_succ_of_lt hgt), Nat.ne_of_gt hgt]

/-- A copy of as many entries as there are places. -/
theorem copyInto?_of_le (v : Vector α n) (i : Nat) (as : List α) (h : i + as.length ≤ n) :
    copyInto? v i (i + as.length) as =
      some (Vector.ofFn fun j => if i ≤ j.val then as[j.val - i]?.getD v[j] else v[j]) := by
  rw [copyInto?, if_pos ⟨Nat.le_add_right i _, h, (Nat.add_sub_cancel_left i _).symm⟩,
    setFrom?_of_le v i as h]

end Tables

/-- A copy to the registers from `V0` on fills them. -/
theorem Registers.copyInto?_values (r : Registers) (bytes : List UInt8)
    (h : bytes.length ≤ registerCount) :
    copyInto? r.values 0 bytes.length bytes = some (r.fill bytes).values := by
  have hcopy := copyInto?_of_le r.values 0 bytes (by rwa [Nat.zero_add])
  rw [Nat.zero_add] at hcopy
  rw [hcopy]
  simp [fill]

/-- A copy of all keys replaces them. -/
theorem Keypad.copyInto?_keys (k k' : Keypad) :
    copyInto? k.keys 0 keyCount k'.toList = some k'.keys := by
  have hlen : k'.toList.length = keyCount := Vector.length_toList
  have hcopy := copyInto?_of_le k.keys 0 k'.toList (Nat.le_of_eq (by rw [hlen, Nat.zero_add]))
  rw [hlen, Nat.zero_add] at hcopy
  rw [hcopy]
  congr 1
  apply Vector.ext
  intro j hj
  simp [toList]

/-- The first registers, up to one that exists. -/
theorem Registers.part?_upTo (r : Registers) {x : Nat} (h : x < registerCount) :
    part? r.toList 0 (x + 1) = some (r.upTo x) := by
  have hlen : r.toList.length = registerCount := Vector.length_toList
  rw [part?_of_le (Nat.zero_le _) (hlen ▸ h), Option.some.injEq]
  apply List.ext_getElem
  · simp [hlen, Nat.min_eq_left (Nat.succ_le_of_lt h)]
  · intro i hi hi'
    rw [Registers.length_upTo] at hi'
    have hlt : i < registerCount := by omega
    simp [toList, upTo, valueAt, hlt]

namespace Memory

/-- A part that is inside memory. -/
theorem part?_toList (m : Memory) {a len : Nat} (h : a + len ≤ memorySize) :
    part? m.toList a (a + len) = some (m.bytesFrom a len) := by
  have hlen : m.toList.length = memorySize := Vector.length_toList
  rw [part?_of_le (Nat.le_add_right a len) (hlen ▸ h), Option.some.injEq]
  apply List.ext_getElem
  · rw [List.length_drop, List.length_take, hlen, length_bytesFrom]
    omega
  · intro i hi hi'
    rw [length_bytesFrom] at hi'
    have hlt : a + i < memorySize := by omega
    simp [toList, bytesFrom, byteAt, hlt]

/-- A copy to a part that is inside memory stores the bytes there. -/
theorem copyInto?_bytes (m : Memory) {a : Nat} {bs : List UInt8} (h : a + bs.length ≤ memorySize) :
    copyInto? m.bytes a (a + bs.length) bs = some (m.poke a bs).bytes := by
  rw [copyInto?_of_le m.bytes a bs h, Option.some.injEq]
  apply Vector.ext
  intro i hi
  have hbyte := byteAt_poke m a bs i hi
  simp only [byteAt, Vector.getElem?_eq_getElem hi, Option.getD_some] at hbyte
  rw [hbyte, Vector.getElem_ofFn]
  rfl

end Memory

namespace Screen

/-- Inverts a pixel of a screen, and adds to the report whether it was lit. -/
def invert (acc : Screen × Bool) (p : Pixel) : Screen × Bool :=
  (acc.1.toggle p, acc.2 || acc.1.isLit p)

/-- The number of the pixel in column `x` and row `y`, both taken modulo the size of the screen. -/
def pixelNumber? (x y : Nat) : Option Nat := do
  let start ← product? (y % screenHeight) screenWidth
  sum? (x % screenWidth) start

/-- Inverts the pixel in column `x` and row `y`. -/
def invertAt? (x y : Nat) (acc : Screen × Bool) : Option (Screen × Bool) := do
  let i ← pixelNumber? x y
  let lit ← acc.1.pixels[i]?
  let pixels ← setAt? acc.1.pixels i (!lit)
  pure (⟨pixels⟩, acc.2 || lit)

/-- Inverts the pixels of a sprite row that lie in the given columns of the sprite. -/
def invertColumns? (x y : Nat) (row : UInt8) : List Nat → Screen × Bool → Option (Screen × Bool)
  | [], acc => some acc
  | c :: cs, acc =>
    if row.toNat.testBit (spriteWidth - 1 - c) then do
      let column ← sum? x c
      let acc ← invertAt? column y acc
      invertColumns? x y row cs acc
    else invertColumns? x y row cs acc

/-- Inverts the pixels of sprite rows, the first of which is row `r` of the sprite. -/
def invertRows? (x y : Nat) : Nat → List UInt8 → Screen × Bool → Option (Screen × Bool)
  | _, [], acc => some acc
  | r, row :: rows, acc => do
    let line ← sum? y r
    let acc ← invertColumns? x line row (List.range spriteWidth) acc
    invertRows? x y (r + 1) rows acc

/-- Draws a sprite. -/
def drawSprite? (s : Screen) (x y : Nat) (rows : List UInt8) : Option (Screen × Bool) :=
  invertRows? x y 0 rows (s, false)

variable {x y r : Nat} {row : UInt8} {rows : List UInt8}

/-- The number of a pixel is one of the screen. -/
theorem pixelNumber?_eq (x y : Nat) : pixelNumber? x y = some (Pixel.ofCoords x y).val := by
  have hx : x % 64 < 64 := Nat.mod_lt x (by decide)
  have hy : y % 32 < 32 := Nat.mod_lt y (by decide)
  have hproduct : y % screenHeight * screenWidth < UInt64.size := by
    show y % 32 * 64 < 2 ^ 64
    omega
  have hsum : x % screenWidth + y % screenHeight * screenWidth < UInt64.size := by
    show x % 64 + y % 32 * 64 < 2 ^ 64
    omega
  rw [pixelNumber?, product?_of_lt hproduct]
  exact sum?_of_lt hsum

theorem invertAt?_eq (x y : Nat) (acc : Screen × Bool) :
    invertAt? x y acc = some (invert acc (Pixel.ofCoords x y)) := by
  have hlt := (Pixel.ofCoords x y).isLt
  simp only [invertAt?, pixelNumber?_eq, Option.bind_eq_bind, Option.bind_some,
    Vector.getElem?_eq_getElem hlt, setAt?_of_lt _ _ hlt]
  rfl

theorem invertColumns?_eq (hx : x + spriteWidth < UInt64.size) {cs : List Nat}
    (hcs : ∀ c ∈ cs, c < spriteWidth) (acc : Screen × Bool) :
    invertColumns? x y row cs acc =
      some (((cs.filter fun c => row.toNat.testBit (spriteWidth - 1 - c)).map fun c =>
        Pixel.ofCoords (x + c) y).foldl invert acc) := by
  induction cs generalizing acc with
  | nil => rfl
  | cons c cs ih =>
    obtain ⟨hc, hcs⟩ := List.forall_mem_cons.1 hcs
    have hsum : x + c < UInt64.size := by omega
    by_cases hbit : row.toNat.testBit (spriteWidth - 1 - c)
    · rw [invertColumns?, if_pos hbit, sum?_of_lt hsum, List.filter_cons, if_pos hbit]
      simp only [Option.bind_eq_bind, Option.bind_some, invertAt?_eq]
      exact ih hcs _
    · rw [invertColumns?, if_neg hbit, List.filter_cons, if_neg hbit]
      exact ih hcs acc

theorem invertRows?_eq (hx : x + spriteWidth < UInt64.size) (hy : y + r + rows.length < UInt64.size)
    (acc : Screen × Bool) :
    invertRows? x y r rows acc = some ((spritePixels x (y + r) rows).foldl invert acc) := by
  induction rows generalizing r acc with
  | nil => rfl
  | cons row rows ih =>
    rw [List.length_cons] at hy
    have hline : y + r < UInt64.size := by omega
    rw [invertRows?, sum?_of_lt hline]
    simp only [Option.bind_eq_bind, Option.bind_some,
      invertColumns?_eq hx (fun _ => List.mem_range.1)]
    rw [ih (by omega), spritePixels, List.foldl_append]
    rfl

/-- **A drawing pixel by pixel** that begins at the coordinates of two registers keeps all limits. -/
theorem drawSprite?_eq (s : Screen) (vx vy : UInt8) (h : rows.length ≤ memorySize) :
    s.drawSprite? vx.toNat vy.toNat rows = some (s.drawSprite vx.toNat vy.toNat rows) := by
  have hvx := vx.toNat_lt
  have hvy := vy.toNat_lt
  have hrows : rows.length ≤ 4096 := h
  have hx : vx.toNat + spriteWidth < UInt64.size := by
    show vx.toNat + 8 < 2 ^ 64
    omega
  have hy : vy.toNat + 0 + rows.length < UInt64.size := by
    show vy.toNat + 0 + rows.length < 2 ^ 64
    omega
  exact invertRows?_eq hx hy (s, false)

end Screen

end Chip8
