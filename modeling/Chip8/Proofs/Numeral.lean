import Chip8.Numeral

/-!
# Reading numbers back

The numbers in a line of text. The line is cut at its blanks, and every word that has digits stands
for the number that these digits make; all other characters are passed over. A numeral of any width
is read as the number it was made of.

* `value_digits`: the digits of a number have its value.
* `numbers_hex`, `numbers_hexDigits`, `numbers_decimal`: one numeral is one number.
* `numbers_append`, `numbers_intercalate`: the numbers of texts with a separator between them.
* `not_mem_hex`, `not_mem_hexDigits`, `not_mem_decimal`: what is not found in a numeral.
-/

namespace Chip8.Numeral

/-- Whether a character is a digit below sixteen. -/
def isDigit (c : Char) : Bool :=
  c.isDigit || 'A' ≤ c && c ≤ 'F'

/-- The value of a digit. -/
def digitValue (c : Char) : Nat :=
  if c.toNat < 58 then c.toNat - 48 else c.toNat - 55

/-- The number that digits stand for, the most significant first. -/
def value (base : Nat) (s : List Char) : Nat :=
  s.foldl (fun n c => n * base + digitValue c) 0

/-- The digits and the blanks of a line. -/
def legible (line : List Char) : List Char :=
  line.filter fun c => isDigit c || c == ' '

/-- The numbers in a line. -/
def numbers (base : Nat) (line : List Char) : List Nat :=
  (((legible line).splitOn ' ').filter (· ≠ [])).map (value base)

/-- Whether a text has no digit in it. -/
def Plain (s : List Char) : Prop :=
  ∀ c ∈ s, isDigit c = false

instance (s : List Char) : Decidable (Plain s) :=
  List.decidableBAll (fun c => isDigit c = false) s

/-- Whether a text parts the words of a line: it has a blank and no digit. -/
def Separator (s : List Char) : Prop :=
  Plain s ∧ ' ' ∈ s

instance (s : List Char) : Decidable (Separator s) :=
  inferInstanceAs (Decidable (Plain s ∧ ' ' ∈ s))

section Digits

variable {base : Nat}

theorem isDigit_digit : ∀ {d : Nat}, d < 16 → isDigit (digit d) = true := by
  decide

theorem digitValue_digit : ∀ {d : Nat}, d < 16 → digitValue (digit d) = d := by
  decide

theorem digits_of_lt {n : Nat} (h : n < base) : digits base n = [digit n] := by
  rw [digits, dif_pos (.inr h)]

theorem digits_of_le {n : Nat} (hb : 2 ≤ base) (h : base ≤ n) :
    digits base n = digits base (n / base) ++ [digit (n % base)] := by
  rw [digits, dif_neg (by omega)]

/-- The digits of numbers in a base, one below the base and others from their quotients. -/
theorem digits_induction {P : Nat → Prop} (hb : 2 ≤ base) (hlt : ∀ n, n < base → P n)
    (hle : ∀ n, base ≤ n → P (n / base) → P n) (n : Nat) : P n := by
  induction n using Nat.strongRecOn with
  | ind n ih =>
    rcases Nat.lt_or_ge n base with h | h
    · exact hlt n h
    · exact hle n h (ih _ (Nat.div_lt_self (by omega) hb))

theorem isDigit_of_mem_digits (hb : 2 ≤ base) (hb' : base ≤ 16) {n : Nat} {c : Char}
    (h : c ∈ digits base n) : isDigit c = true := by
  induction n using digits_induction hb with
  | hlt n hn =>
    rw [digits_of_lt hn, List.mem_singleton] at h
    rw [h]
    exact isDigit_digit (by omega)
  | hle n hn ih =>
    rw [digits_of_le hb hn, List.mem_append, List.mem_singleton] at h
    rcases h with h | rfl
    · exact ih h
    · have hmod : n % base < base := Nat.mod_lt n (by omega)
      exact isDigit_digit (by omega)

/-- **The digits of a number** have its value. -/
theorem value_digits (hb : 2 ≤ base) (hb' : base ≤ 16) (n : Nat) :
    value base (digits base n) = n := by
  induction n using digits_induction hb with
  | hlt n hn =>
    rw [digits_of_lt hn]
    simp only [value, List.foldl_cons, List.foldl_nil, Nat.zero_mul, Nat.zero_add]
    exact digitValue_digit (by omega)
  | hle n hn ih =>
    have hmod : n % base < base := Nat.mod_lt n (by omega)
    rw [value] at ih
    rw [digits_of_le hb hn, value, List.foldl_append, ih, List.foldl_cons, List.foldl_nil,
      digitValue_digit (by omega)]
    exact Nat.div_add_mod' n base

/-- A zero in front changes no value. -/
theorem value_zero_cons (s : List Char) : value base ('0' :: s) = value base s := by
  have hzero : digitValue '0' = 0 := rfl
  rw [value, List.foldl_cons, Nat.zero_mul, hzero]
  rfl

/-- Padding changes no value. -/
theorem value_padLeft (width : Nat) (s : List Char) :
    value base (padLeft width s) = value base s := by
  unfold padLeft
  induction width - s.length with
  | zero => rfl
  | succ k ih =>
    rw [List.replicate_succ, List.cons_append, value_zero_cons]
    exact ih

theorem value_hexDigits (width n : Nat) : value 16 (hexDigits width n).toList = n := by
  rw [hexDigits, String.toList_ofList, value_padLeft]
  exact value_digits (by decide) (by decide) n

theorem value_decimal (n : Nat) : value 10 (decimal n).toList = n := by
  rw [decimal, String.toList_ofList]
  exact value_digits (by decide) (by decide) n

theorem isDigit_of_mem_hexDigits {width n : Nat} {c : Char}
    (h : c ∈ (hexDigits width n).toList) : isDigit c = true := by
  rw [hexDigits, String.toList_ofList, padLeft, List.mem_append] at h
  rcases h with h | h
  · rw [List.eq_of_mem_replicate h]
    rfl
  · exact isDigit_of_mem_digits (by decide) (by decide) h

theorem isDigit_of_mem_decimal {n : Nat} {c : Char} (h : c ∈ (decimal n).toList) :
    isDigit c = true := by
  rw [decimal, String.toList_ofList] at h
  exact isDigit_of_mem_digits (by decide) (by decide) h

variable {c : Char}

theorem not_mem_hexDigits (hc : isDigit c = false) (width n : Nat) :
    c ∉ (hexDigits width n).toList := by
  intro h
  rw [isDigit_of_mem_hexDigits h] at hc
  cases hc

theorem not_mem_hex (hc : isDigit c = false) (hx : c ≠ 'x') (width n : Nat) :
    c ∉ (hex width n).toList := by
  have hzero : c ≠ '0' := by
    rintro rfl
    cases hc
  simp only [hex, String.toList_append, List.mem_append, not_or]
  refine ⟨?_, not_mem_hexDigits hc width n⟩
  show c ∉ ['0', 'x']
  simp [hzero, hx]

theorem not_mem_decimal (hc : isDigit c = false) (n : Nat) : c ∉ (decimal n).toList := by
  intro h
  rw [isDigit_of_mem_decimal h] at hc
  cases hc

end Digits

section Numbers

variable (base : Nat)

theorem numbers_congr {s t : List Char} (h : legible s = legible t) :
    numbers base s = numbers base t := by
  unfold numbers
  rw [h]

/-- A blank parts the numbers of a line. -/
theorem numbers_append_blank (s t : List Char) :
    numbers base (s ++ ' ' :: t) = numbers base s ++ numbers base t := by
  have hblank : legible (s ++ ' ' :: t) = legible s ++ ' ' :: legible t := by
    unfold legible
    rw [List.filter_append, List.filter_cons_of_pos (by rfl)]
  unfold numbers
  rw [hblank, List.splitOn_append_cons_self, List.filter_append, List.map_append]

/-- A character that is neither a digit nor a blank is passed over. -/
theorem numbers_append_mark {c : Char} (hd : isDigit c = false) (hb : c ≠ ' ') (s t : List Char) :
    numbers base (s ++ c :: t) = numbers base (s ++ t) := by
  apply numbers_congr
  unfold legible
  rw [List.filter_append, List.filter_append, List.filter_cons_of_neg (by simp [hd, hb])]

/-- A text without digits has no numbers, and adds none to the text in front. -/
theorem numbers_append_plain {p : List Char} (hp : Plain p) (s : List Char) :
    numbers base (s ++ p) = numbers base s := by
  induction p generalizing s with
  | nil => rw [List.append_nil]
  | cons c p ih =>
    have hd := hp c List.mem_cons_self
    have ih := ih fun a ha => hp a (List.mem_cons_of_mem c ha)
    by_cases hb : c = ' '
    · have hnone : numbers base p = [] := ih []
      rw [hb, numbers_append_blank, hnone, List.append_nil]
    · rw [numbers_append_mark base hd hb, ih]

/-- A text without digits adds no numbers to the text behind. -/
theorem numbers_plain_append {p : List Char} (hp : Plain p) (s : List Char) :
    numbers base (p ++ s) = numbers base s := by
  induction p with
  | nil => rfl
  | cons c p ih =>
    have hd := hp c List.mem_cons_self
    have ih := ih fun a ha => hp a (List.mem_cons_of_mem c ha)
    by_cases hb : c = ' '
    · rw [hb, List.cons_append]
      exact (numbers_append_blank base [] (p ++ s)).trans ih
    · exact (numbers_append_mark base hd hb [] (p ++ s)).trans ih

/-- **A separator** parts the numbers of a line. -/
theorem numbers_append {sep : List Char} (hsep : Separator sep) (s t : List Char) :
    numbers base (s ++ (sep ++ t)) = numbers base s ++ numbers base t := by
  obtain ⟨hp, hb⟩ := hsep
  obtain ⟨p, q, rfl⟩ := List.append_of_mem hb
  have hpp : Plain p := fun c hc => hp c (List.mem_append_left _ hc)
  have hpq : Plain q := fun c hc =>
    hp c (List.mem_append_right _ (List.mem_cons_of_mem _ hc))
  calc numbers base (s ++ (p ++ ' ' :: q ++ t))
      = numbers base ((s ++ p) ++ ' ' :: (q ++ t)) := by simp
    _ = numbers base (s ++ p) ++ numbers base (q ++ t) := numbers_append_blank ..
    _ = numbers base s ++ numbers base t := by
      rw [numbers_append_plain base hpp, numbers_plain_append base hpq]

/-- The numbers of texts with a separator between them. -/
theorem numbers_intercalate {sep : List Char} (hsep : Separator sep) (ts : List (List Char)) :
    numbers base (sep.intercalate ts) = ts.flatMap (numbers base) := by
  induction ts with
  | nil => rfl
  | cons t ts ih =>
    cases ts with
    | nil => simp
    | cons u ts =>
      rw [List.intercalate_cons_cons, List.append_assoc, numbers_append base hsep, ih]
      rfl

/-- Digits alone are one number. -/
theorem numbers_digits {s : List Char} (hs : ∀ c ∈ s, isDigit c = true) (hne : s ≠ []) :
    numbers base s = [value base s] := by
  have hkept : legible s = s := List.filter_eq_self.2 fun c hc => by simp [hs c hc]
  have hblank : ' ' ∉ s := fun h => absurd (hs _ h) (by decide)
  unfold numbers
  rw [hkept, List.splitOn_eq_singleton hblank, List.filter_cons_of_pos (by simpa using hne)]
  rfl

theorem numbers_hexDigits (width n : Nat) : numbers 16 (hexDigits width n).toList = [n] := by
  have hne : (hexDigits width n).toList ≠ [] := by
    have hlength := length_padLeft width (digits 16 n)
    have hpos := digits_length_pos 16 n
    rw [hexDigits, String.toList_ofList]
    apply List.ne_nil_of_length_pos
    omega
  rw [numbers_digits 16 (fun c => isDigit_of_mem_hexDigits) hne, value_hexDigits]

theorem numbers_hex (width n : Nat) : numbers 16 (hex width n).toList = [n] := by
  have hx : isDigit 'x' = false := by decide
  have hdigits : ∀ c ∈ '0' :: (hexDigits width n).toList, isDigit c = true := by
    intro c hc
    rcases List.mem_cons.1 hc with rfl | hc
    · rfl
    · exact isDigit_of_mem_hexDigits hc
  calc numbers 16 (hex width n).toList
      = numbers 16 (['0'] ++ 'x' :: (hexDigits width n).toList) := by
        rw [hex, String.toList_append]
        rfl
    _ = numbers 16 ('0' :: (hexDigits width n).toList) := numbers_append_mark 16 hx (by decide) ..
    _ = [n] := by
        rw [numbers_digits 16 hdigits (List.cons_ne_nil _ _), value_zero_cons, value_hexDigits]

theorem numbers_decimal (n : Nat) : numbers 10 (decimal n).toList = [n] := by
  have hne : (decimal n).toList ≠ [] := by
    rw [decimal, String.toList_ofList]
    exact List.ne_nil_of_length_pos (digits_length_pos 10 n)
  rw [numbers_digits 10 (fun c => isDigit_of_mem_decimal) hne, value_decimal]

end Numbers

end Chip8.Numeral
