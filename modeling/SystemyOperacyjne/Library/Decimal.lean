import Mathlib

/-!
# Decimal numbers in bytes

What `%d` prints of a natural number, and what `atoi` reads: white space, a sign, and the digits
up to the first byte that is none. What was printed is read again if no digit follows and it is
an `int` (`atoi_decimal_append`), and a few bytes do not hold a great number (`atoi_lt`).
-/

set_option autoImplicit false

namespace SystemyOperacyjne.Library

/-- `%d` of a natural number. -/
def decimal (n : ℕ) : List UInt8 :=
  (Nat.toDigits 10 n).map fun c => UInt8.ofNat c.toNat

/-- `isdigit`. -/
def isDigit (b : UInt8) : Bool :=
  48 ≤ b.toNat ∧ b.toNat ≤ 57

/-- `isspace`. -/
def isSpace (b : UInt8) : Bool :=
  b.toNat = 32 ∨ (9 ≤ b.toNat ∧ b.toNat ≤ 13)

/-- The number that digits stand for. -/
def digitsValue (l : List UInt8) : ℕ :=
  l.foldl (fun n b => 10 * n + (b.toNat - 48)) 0

/-- The digits in front. -/
def leadingDigits (s : List UInt8) : List UInt8 :=
  s.takeWhile isDigit

/-- The number at the beginning of a string that ends with its bytes. -/
def numeral (s : List UInt8) : ℤ :=
  match s.dropWhile isSpace with
  | [] => 0
  | b :: s =>
    if b = 45 then -(digitsValue (leadingDigits s) : ℤ)
    else if b = 43 then digitsValue (leadingDigits s)
    else digitsValue (leadingDigits (b :: s))

/-- `strtol`, with a `long` of 64 bits: a number that is out of range is the nearest that is not. -/
def strtol (s : List UInt8) : ℤ :=
  max (-2 ^ 63) (min (numeral s) (2 ^ 63 - 1))

/-- `atoi`: the `long` of `strtol` as an `int` of 32 bits. -/
def atoi (s : List UInt8) : ℤ :=
  (strtol s).bmod (2 ^ 32)

/-! ## Printing -/

/-- One more digit behind the others. -/
theorem digitsValue_append_singleton (l : List UInt8) (b : UInt8) :
    digitsValue (l ++ [b]) = 10 * digitsValue l + (b.toNat - 48) := by
  unfold digitsValue
  rw [List.foldl_append]
  rfl

/-- The byte of a digit. -/
theorem toNat_digitChar {d : ℕ} (hd : d < 10) :
    (UInt8.ofNat d.digitChar.toNat).toNat = 48 + d := by
  rw [Nat.toNat_digitChar_of_lt_ten hd, UInt8.toNat_ofNat']
  omega

/-- The last digit is the remainder. -/
theorem decimal_eq (n : ℕ) :
    decimal n = (if n < 10 then [] else decimal (n / 10)) ++
      [UInt8.ofNat (n % 10).digitChar.toNat] := by
  unfold decimal
  rw [Nat.toDigits_eq_if (by decide)]
  split
  · next hlt => rw [Nat.mod_eq_of_lt hlt, List.nil_append, List.map_singleton]
  · rw [List.map_append, List.map_singleton]

/-- A number has a digit at least. -/
theorem decimal_ne_nil (n : ℕ) : decimal n ≠ [] := by
  rw [decimal_eq]
  exact List.append_ne_nil_of_right_ne_nil _ (List.cons_ne_nil _ _)

/-- What is printed are digits. The induction is on the number, by tenths. -/
theorem isDigit_of_mem_decimal {n : ℕ} {b : UInt8} (hb : b ∈ decimal n) : isDigit b = true := by
  induction n using Nat.strong_induction_on with
  | _ n ih =>
    rw [decimal_eq] at hb
    rcases List.mem_append.mp hb with hb | hb
    · split at hb
      · cases hb
      · exact ih (n / 10) (by omega) hb
    · have hd : n % 10 < 10 := Nat.mod_lt _ (by omega)
      have hvalue := toNat_digitChar hd
      rw [List.mem_singleton.mp hb]
      unfold isDigit
      rw [decide_eq_true_iff, hvalue]
      omega

/-- **The digits printed stand for the number.** -/
theorem digitsValue_decimal (n : ℕ) : digitsValue (decimal n) = n := by
  induction n using Nat.strong_induction_on with
  | _ n ih =>
    have hd : n % 10 < 10 := Nat.mod_lt _ (by omega)
    rw [decimal_eq, digitsValue_append_singleton, toNat_digitChar hd]
    split
    · show 10 * 0 + (48 + n % 10 - 48) = n
      omega
    · rw [ih (n / 10) (by omega)]
      omega

/-- A number has at most `m` digits when it is below that power of ten. -/
theorem length_decimal_le_iff {n m : ℕ} (hm : 0 < m) :
    (decimal n).length ≤ m ↔ n < 10 ^ m := by
  unfold decimal
  rw [List.length_map, Nat.length_toDigits_le_iff (by decide) hm]

/-! ## Reading -/

/-- What follows does not begin with a digit. -/
def EndsDigits (rest : List UInt8) : Prop :=
  ∀ b ∈ rest.head?, isDigit b = false

/-- The digits end where something else begins. -/
theorem leadingDigits_append {l rest : List UInt8} (hl : ∀ b ∈ l, isDigit b = true)
    (hrest : EndsDigits rest) : leadingDigits (l ++ rest) = l := by
  unfold leadingDigits
  rw [List.takeWhile_append_of_pos hl]
  cases rest with
  | nil => rw [List.takeWhile_nil, List.append_nil]
  | cons b rest =>
    have hb : isDigit b = false := hrest b rfl
    rw [List.takeWhile_cons_of_neg (by rw [hb]; decide), List.append_nil]

/-- An `int` is read as it is. -/
theorem atoi_eq_numeral {s : List UInt8} (hlower : -2 ^ 31 ≤ numeral s)
    (hupper : numeral s < 2 ^ 31) : atoi s = numeral s := by
  have hlong : strtol s = numeral s := by
    unfold strtol
    omega
  rw [atoi, hlong]
  apply Int.bmod_eq_of_le <;> omega

/-- What was printed is the number in front, if no digit follows it. -/
theorem numeral_decimal_append (n : ℕ) {rest : List UInt8} (hrest : EndsDigits rest) :
    numeral (decimal n ++ rest) = n := by
  have hdigits := leadingDigits_append (fun _ => isDigit_of_mem_decimal) hrest (l := decimal n)
  have hvalue := digitsValue_decimal n
  cases hdecimal : decimal n with
  | nil => exact absurd hdecimal (decimal_ne_nil n)
  | cons b l =>
    have hb : isDigit b = true := isDigit_of_mem_decimal (n := n) (hdecimal ▸ List.mem_cons_self)
    unfold isDigit at hb
    rw [decide_eq_true_iff] at hb
    have hspace : ¬ isSpace b = true := by
      unfold isSpace
      rw [decide_eq_true_iff]
      omega
    have hminus : b ≠ 45 := by
      rintro rfl
      revert hb
      decide
    have hplus : b ≠ 43 := by
      rintro rfl
      revert hb
      decide
    rw [hdecimal, List.cons_append] at hdigits
    rw [hdecimal] at hvalue
    unfold numeral
    rw [List.cons_append, List.dropWhile_cons_of_neg hspace]
    simp only
    rw [if_neg hminus, if_neg hplus, hdigits, hvalue]

/-- **What was printed is read again**, if it is an `int` and no digit follows it. -/
theorem atoi_decimal_append {n : ℕ} (hn : n < 2 ^ 31) {rest : List UInt8}
    (hrest : EndsDigits rest) : atoi (decimal n ++ rest) = n := by
  have hvalue := numeral_decimal_append n hrest
  rw [← hvalue]
  apply atoi_eq_numeral <;> omega

/-- Digits stand for a number below the power of ten of their count. -/
theorem digitsValue_lt {l : List UInt8} (hl : ∀ b ∈ l, isDigit b = true) :
    digitsValue l < 10 ^ l.length := by
  induction l using List.reverseRecOn with
  | nil => decide
  | append_singleton l b ih =>
    have hb : isDigit b = true := hl b (List.mem_append_right l (List.mem_singleton_self b))
    unfold isDigit at hb
    rw [decide_eq_true_iff] at hb
    have hlt := ih fun x hx => hl x (List.mem_append_left [b] hx)
    rw [digitsValue_append_singleton, List.length_append, List.length_singleton, pow_succ]
    omega

/-- Few characters make a small number. -/
theorem digitsValue_leadingDigits_lt {s : List UInt8} {m : ℕ} (hs : s.length ≤ m) :
    digitsValue (leadingDigits s) < 10 ^ m := by
  have hlength : (leadingDigits s).length ≤ m := (List.takeWhile_prefix isDigit).length_le.trans hs
  exact (digitsValue_lt fun b hb => List.mem_takeWhile_imp hb).trans_le
    (Nat.pow_le_pow_right (by decide) hlength)

/-- So many bytes hold a number with no more digits. -/
theorem numeral_bounds {s : List UInt8} {m : ℕ} (hs : s.length ≤ m) :
    -(10 ^ m : ℕ) < numeral s ∧ numeral s < (10 ^ m : ℕ) := by
  have hpos : 0 < 10 ^ m := Nat.pow_pos (by decide)
  have hdrop := List.length_dropWhile_le isSpace s
  unfold numeral
  split
  · omega
  · next b rest hcons =>
    rw [hcons, List.length_cons] at hdrop
    have hrest := digitsValue_leadingDigits_lt (s := rest) (m := m) (by omega)
    have hall := digitsValue_leadingDigits_lt (s := b :: rest) (m := m)
      (by rw [List.length_cons]; omega)
    split
    · omega
    · split <;> omega

/-- **A few bytes hold a small number.** -/
theorem atoi_lt {s : List UInt8} {m : ℕ} (hs : s.length ≤ m) (hm : m ≤ 9) :
    atoi s < (10 ^ m : ℕ) := by
  obtain ⟨hlower, hupper⟩ := numeral_bounds hs
  have hpow : 10 ^ m ≤ 10 ^ 9 := Nat.pow_le_pow_right (by decide) hm
  rw [atoi_eq_numeral]
  · exact hupper
  · omega
  · omega

end SystemyOperacyjne.Library
