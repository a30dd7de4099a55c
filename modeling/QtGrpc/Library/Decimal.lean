import Mathlib.Data.List.TakeWhile
import Mathlib.Data.Rat.Defs
import Mathlib.Algebra.Order.Field.Rat
import Mathlib.Tactic.FieldSimp
import Mathlib.Tactic.Ring

/-!
# Decimal numerals

The numbers that texts of decimal digits stand for. A numeral has a sign, digits and perhaps a
point with further digits behind it; it is read from the front of a text, of which the rest is left.
-/

namespace Decimal

/-- The number that a text of digits stands for. -/
def value (digits : List Char) : Nat := Nat.ofDigitChars 10 digits 0

/-- No digits stand for zero. -/
@[simp] theorem value_nil : value [] = 0 := rfl

/-- The digits of a number stand for it. -/
@[simp] theorem value_toDigits (n : Nat) : value (Nat.toDigits 10 n) = n :=
  Nat.ofDigitChars_ten_toDigits

/-- The digits of two parts carry those of the second behind the first. -/
theorem value_append (l m : List Char) : value (l ++ m) = 10 ^ m.length * value l + value m := by
  unfold value
  rw [Nat.ofDigitChars_append, Nat.ofDigitChars_eq_ofDigitChars_zero]

/-- A leading zero does not count. -/
@[simp] theorem value_cons_zero (l : List Char) : value ('0' :: l) = value l := by
  simp [value, Nat.ofDigitChars_cons]

/-- A zero at the end is a factor of ten. -/
theorem value_concat_zero (l : List Char) : value (l ++ ['0']) = 10 * value l := by
  rw [value_append]
  rfl

/-- A digit is less than ten. -/
theorem toNat_sub_lt_of_isDigit {c : Char} (h : c.isDigit) : c.toNat - '0'.toNat < 10 := by
  simp only [Char.isDigit, Bool.and_eq_true, decide_eq_true_eq] at h
  have hhigh : c.val.toNat ≤ 57 := h.2
  have hzero : '0'.toNat = 48 := rfl
  have hval : c.toNat = c.val.toNat := rfl
  omega

/-- A number has fewer digits than a bound only if it is below the power of that bound. -/
theorem value_lt {l : List Char} (h : ∀ c ∈ l, c.isDigit) : value l < 10 ^ l.length := by
  induction l with
  | nil => simp
  | cons c l ih =>
    have hrest := ih fun c' hc' => h c' (List.mem_cons_of_mem c hc')
    have hdigit := toNat_sub_lt_of_isDigit (h c List.mem_cons_self)
    have hvalue : value (c :: l) = 10 ^ l.length * (c.toNat - '0'.toNat) + value l := by
      have happend := value_append [c] l
      simpa [value, Nat.ofDigitChars_cons] using happend
    have hpow : 10 ^ (c :: l).length = 10 ^ l.length * 10 := by rw [List.length_cons, pow_succ]
    have hstep : 10 ^ l.length * (c.toNat - '0'.toNat + 1) ≤ 10 ^ l.length * 10 :=
      Nat.mul_le_mul_left _ (by omega)
    rw [Nat.mul_add] at hstep
    omega

/-- A sign, digits, and digits behind the point, which is left out if there are none. -/
structure Numeral where
  negative : Bool
  whole : List Char
  fraction : List Char
  whole_digits : ∀ c ∈ whole, c.isDigit
  fraction_digits : ∀ c ∈ fraction, c.isDigit
  whole_ne_nil : whole ≠ []

namespace Numeral

def text (d : Numeral) : List Char :=
  (if d.negative then ['-'] else []) ++ d.whole ++
    if d.fraction = [] then [] else '.' :: d.fraction

/-- The number that a numeral stands for. -/
def value (d : Numeral) : ℚ :=
  (if d.negative then -1 else 1) *
    (Decimal.value d.whole + Decimal.value d.fraction / 10 ^ d.fraction.length)

/-- The same in units of a power of ten. -/
def scaled (d : Numeral) (k : Nat) : Int :=
  (if d.negative then -1 else 1) *
    (Decimal.value d.whole * 10 ^ k + Decimal.value d.fraction * 10 ^ (k - d.fraction.length))

/-- No digit of the fraction is lost in a unit that is small enough. -/
theorem value_eq_scaled (d : Numeral) {k : Nat} (h : d.fraction.length ≤ k) :
    d.value = d.scaled k / 10 ^ k := by
  obtain ⟨j, rfl⟩ : ∃ j, k = d.fraction.length + j := ⟨k - d.fraction.length, by omega⟩
  have hsub : d.fraction.length + j - d.fraction.length = j := by omega
  simp only [value, scaled, hsub, pow_add]
  push_cast
  field_simp

/-- A numeral is longer than its digits by a sign and a point at most. -/
theorem length_text_le (d : Numeral) : d.text.length ≤ d.whole.length + d.fraction.length + 2 := by
  unfold text
  split <;> split <;> simp_all <;> omega

end Numeral

/-- The digits behind a point at the front of a text. -/
def fractionOf : List Char → List Char
  | '.' :: rest => rest.takeWhile Char.isDigit
  | _ => []

/-- A fraction is made of digits. -/
theorem isDigit_of_mem_fractionOf {l : List Char} : ∀ c ∈ fractionOf l, c.isDigit := by
  unfold fractionOf
  split
  · exact fun _ => List.mem_takeWhile_imp
  · simp

/-- The numeral at the front of a text, as long as possible, with the rest of the text. -/
def readNumeral (text : List Char) : Option (Numeral × List Char) :=
  let negative := text.head? == some '-'
  let unsigned := if negative then text.tail else text
  let rest := unsigned.dropWhile Char.isDigit
  if h : unsigned.takeWhile Char.isDigit = [] then none
  else some
    ({ negative
       whole := unsigned.takeWhile Char.isDigit
       fraction := fractionOf rest
       whole_digits := fun _ => List.mem_takeWhile_imp
       fraction_digits := isDigit_of_mem_fractionOf
       whole_ne_nil := h },
      if fractionOf rest = [] then rest else rest.tail.dropWhile Char.isDigit)

/-- The digits in front of other text are all that is taken. -/
theorem takeWhile_digits_append {l rest : List Char} (hl : ∀ c ∈ l, c.isDigit)
    (hrest : ∀ c ∈ rest.head?, c.isDigit = false) :
    (l ++ rest).takeWhile Char.isDigit = l ∧ (l ++ rest).dropWhile Char.isDigit = rest := by
  have hstop : rest.takeWhile Char.isDigit = [] ∧ rest.dropWhile Char.isDigit = rest := by
    cases rest with
    | nil => exact ⟨rfl, rfl⟩
    | cons c rest => simp [hrest c rfl]
  constructor
  · rw [List.takeWhile_append_of_pos hl, hstop.1, List.append_nil]
  · rw [List.dropWhile_append_of_pos hl, hstop.2]

/-- The digits behind a point are those of the fraction. -/
theorem fractionOf_append {l rest : List Char} (hl : ∀ c ∈ l, c.isDigit)
    (hrest : ∀ c ∈ rest.head?, c.isDigit = false ∧ c ≠ '.') :
    fractionOf ((if l = [] then [] else '.' :: l) ++ rest) = l := by
  by_cases hnil : l = []
  · subst hnil
    cases rest with
    | nil => rfl
    | cons c rest =>
      have hc := (hrest c rfl).2
      simp only [if_true, List.nil_append]
      unfold fractionOf
      split
      · simp_all
      · rfl
  · rw [if_neg hnil]
    exact (takeWhile_digits_append hl fun c hc => (hrest c hc).1).1

/-- A sign, or its absence, is told from the digits behind it. -/
theorem head?_text (d : Numeral) (rest : List Char) :
    ((d.text ++ rest).head? == some '-') = d.negative := by
  unfold Numeral.text
  obtain ⟨c, whole, hwhole⟩ := List.exists_cons_of_ne_nil d.whole_ne_nil
  have hdigit := d.whole_digits c (by simp [hwhole])
  have hne : c ≠ '-' := by
    rintro rfl
    exact absurd hdigit (by decide)
  cases d.negative <;> simp [hwhole, hne]

/-- A numeral is read back from its text if neither a digit nor a point follows. -/
theorem readNumeral_text (d : Numeral) {rest : List Char}
    (hrest : ∀ c ∈ rest.head?, c.isDigit = false ∧ c ≠ '.') :
    readNumeral (d.text ++ rest) = some (d, rest) := by
  have hunsigned : (if d.negative then (d.text ++ rest).tail else d.text ++ rest) =
      d.whole ++ ((if d.fraction = [] then [] else '.' :: d.fraction) ++ rest) := by
    unfold Numeral.text
    cases d.negative <;> simp
  have hbehind : ∀ c ∈ ((if d.fraction = [] then [] else '.' :: d.fraction) ++ rest).head?,
      c.isDigit = false := by
    intro c hc
    split at hc
    · exact (hrest c hc).1
    · cases hc
      rfl
  obtain ⟨hwhole, hdrop⟩ := takeWhile_digits_append d.whole_digits hbehind
  have hfraction := fractionOf_append d.fraction_digits hrest
  have hdropFraction := (takeWhile_digits_append d.fraction_digits fun c hc => (hrest c hc).1).2
  unfold readNumeral
  simp only [head?_text, hunsigned, hwhole, hdrop, hfraction, d.whole_ne_nil, dite_false]
  by_cases hnil : d.fraction = []
  · obtain ⟨negative, whole, fraction, _, _, _⟩ := d
    simp_all
  · simp [hnil, hdropFraction]

/-- A point with its digits is the front of a text that has any. -/
theorem fractionOf_append_drop (l : List Char) :
    (if fractionOf l = [] then [] else '.' :: fractionOf l) ++
      (if fractionOf l = [] then l else l.tail.dropWhile Char.isDigit) = l := by
  unfold fractionOf
  split
  · split <;> simp_all
  · simp

/-- What is read is the front of the text. -/
theorem readNumeral_sound {text rest : List Char} {d : Numeral}
    (h : readNumeral text = some (d, rest)) : text = d.text ++ rest := by
  have hsign : (if (text.head? == some '-') = true then ['-'] else []) ++
      (if (text.head? == some '-') = true then text.tail else text) = text := by
    cases text with
    | nil => rfl
    | cons c text => by_cases hc : c = '-' <;> simp [hc]
  unfold readNumeral at h
  simp only at h
  generalize (if (text.head? == some '-') = true then text.tail else text) = unsigned at h hsign
  split at h
  · cases h
  · have hwhole := List.takeWhile_append_dropWhile (p := Char.isDigit) (l := unsigned)
    have hfraction := fractionOf_append_drop (unsigned.dropWhile Char.isDigit)
    obtain ⟨rfl, rfl⟩ := Prod.ext_iff.mp (Option.some.inj h)
    simp only [Numeral.text, List.append_assoc, hfraction, hwhole, hsign]

end Decimal
