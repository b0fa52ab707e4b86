import Chip8.Parameters

/-!
# Keypad

Sixteen keys, `0` to `F`, each pressed or not. Only the host changes them. Keys of other numbers
do not exist: they are never pressed, and changing one does nothing.

* `isPressed_set`: a key that was set is as it was set, and every other key is as before.
* `lowestPressed_eq_some_iff`: which key an instruction that waits for one gets.
-/

namespace Chip8

/-- The state of the keys. -/
structure Keypad where
  keys : Vector Bool keyCount
deriving DecidableEq

namespace Keypad

/-- The keypad at power-on, no key pressed. -/
def blank : Keypad :=
  ⟨Vector.replicate keyCount false⟩

/-- Whether a key is pressed. -/
def isPressed (k : Keypad) (key : Nat) : Bool :=
  k.keys[key]?.getD false

/-- Makes a key pressed or not. -/
def set (k : Keypad) (key : Nat) (pressed : Bool) : Keypad :=
  ⟨k.keys.setIfInBounds key pressed⟩

/-- Presses a key. -/
def press (k : Keypad) (key : Nat) : Keypad :=
  k.set key true

/-- Releases a key. -/
def release (k : Keypad) (key : Nat) : Keypad :=
  k.set key false

/-- The pressed keys in ascending order. -/
def pressedKeys (k : Keypad) : List Nat :=
  (List.range keyCount).filter k.isPressed

/-- The pressed key of the lowest number. -/
def lowestPressed (k : Keypad) : Option Nat :=
  k.pressedKeys.head?

/-- The states of all keys, key `0` first. -/
def toList (k : Keypad) : List Bool :=
  k.keys.toList

/-- A keypad from the states of all its keys, key `0` first. -/
def ofList? (keys : List Bool) : Option Keypad :=
  if h : keys.length = keyCount then some ⟨⟨keys.toArray, h⟩⟩ else none

/-- The keypad on which just the given keys are pressed. -/
def ofPressed (keys : List Nat) : Keypad :=
  keys.foldl press blank

theorem isPressed_of_le (k : Keypad) {key : Nat} (h : keyCount ≤ key) : k.isPressed key = false := by
  simp [isPressed, Vector.getElem?_eq_none h]

/-- Only keys up to `F` are pressed. -/
theorem isPressed_eq (k : Keypad) (key : Nat) :
    k.isPressed key = (key < keyCount && k.isPressed key) := by
  by_cases h : key < keyCount
  · simp [h]
  · simp [h, isPressed_of_le k (Nat.le_of_not_lt h)]

theorem ext_isPressed {k k' : Keypad} (h : ∀ i, i < keyCount → k.isPressed i = k'.isPressed i) :
    k = k' := by
  obtain ⟨v⟩ := k
  obtain ⟨v'⟩ := k'
  congr 1
  apply Vector.ext
  intro i hi
  simpa [isPressed, hi] using h i hi

/-- A key that was set is as it was set, and every other key is as before. -/
theorem isPressed_set (k : Keypad) (key : Nat) (pressed : Bool) (i : Nat) :
    (k.set key pressed).isPressed i =
      if key = i ∧ i < keyCount then pressed else k.isPressed i := by
  simp only [isPressed, set, Vector.getElem?_setIfInBounds]
  by_cases h : key = i
  · subst h
    by_cases hk : key < keyCount
    · simp [hk]
    · simp [hk]
  · simp [h]

theorem mem_pressedKeys {k : Keypad} {key : Nat} : key ∈ k.pressedKeys ↔ k.isPressed key := by
  simp only [pressedKeys, List.mem_filter, List.mem_range, and_iff_right_iff_imp]
  intro h
  by_cases hk : key < keyCount
  · exact hk
  · simp [isPressed_of_le k (Nat.le_of_not_lt hk)] at h

theorem lowestPressed_eq_find? (k : Keypad) :
    k.lowestPressed = (List.range keyCount).find? k.isPressed := by
  rw [lowestPressed, pressedKeys, List.head?_filter]

/-- **The key that is found** is pressed, and no key below it is. -/
theorem lowestPressed_eq_some_iff {k : Keypad} {key : Nat} :
    k.lowestPressed = some key ↔ k.isPressed key ∧ ∀ i, i < key → k.isPressed i = false := by
  rw [lowestPressed_eq_find?, List.find?_range_eq_some]
  constructor
  · rintro ⟨h, -, hlt⟩
    exact ⟨h, fun i hi => by simpa using hlt i hi⟩
  · rintro ⟨h, hlt⟩
    exact ⟨h, List.mem_range.1 (List.mem_filter.1 (mem_pressedKeys.2 h)).1 |> List.mem_range.2,
      fun i hi => by simpa using hlt i hi⟩

theorem lowestPressed_eq_none_iff {k : Keypad} :
    k.lowestPressed = none ↔ ∀ i, k.isPressed i = false := by
  rw [lowestPressed, List.head?_eq_none_iff, List.eq_nil_iff_forall_not_mem]
  simp [mem_pressedKeys]

end Keypad

end Chip8
