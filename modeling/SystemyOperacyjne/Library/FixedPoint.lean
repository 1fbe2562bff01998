import SystemyOperacyjne.Library.Decimal

/-!
# Signed and fixed-point numbers in bytes

What `%d` prints of an integer and `%f` of a number with a fixed count of decimals, and what
`sscanf` with `%d` and `atof` read: white space, a sign, digits, and for `atof` a point and further
digits. What was printed is read again if no digit follows it.
-/

set_option autoImplicit false

namespace SystemyOperacyjne.Library

/-- The last `d` digits of a number. -/
def fixedDigits : ℕ → ℕ → List UInt8
  | 0, _ => []
  | d + 1, n => fixedDigits d (n / 10) ++ [UInt8.ofNat (n % 10).digitChar.toNat]

def signText (negative : Bool) : List UInt8 :=
  if negative then [45] else []

/-- `%d` of an integer. -/
def printInt (i : ℤ) : List UInt8 :=
  signText (i < 0) ++ decimal i.natAbs

/-- `%f` with `d` decimals, of the number that is `n` units of the last one. -/
def printFixed (d : ℕ) (negative : Bool) (n : ℕ) : List UInt8 :=
  signText negative ++ decimal (n / 10 ^ d) ++ 46 :: fixedDigits d n

/-- The sign in front: whether it is a minus, and what follows. -/
def takeSign : List UInt8 → Bool × List UInt8
  | [] => (false, [])
  | b :: s => if b = 45 then (true, s) else if b = 43 then (false, s) else (false, b :: s)

def withSign {K : Type*} [Neg K] (negative : Bool) (x : K) : K :=
  if negative then -x else x

/-- `sscanf(s, "%d", ..)`; `none` where there is no number. -/
def sscanfInt (s : List UInt8) : Option ℤ :=
  let (negative, s) := takeSign (s.dropWhile isSpace)
  let digits := leadingDigits s
  if digits.isEmpty then none else some (withSign negative (digitsValue digits : ℤ))

/-- `atof` of a number without an exponent. -/
def atof (s : List UInt8) : ℚ :=
  let (negative, s) := takeSign (s.dropWhile isSpace)
  let whole := leadingDigits s
  let fraction :=
    match s.drop whole.length with
    | [] => []
    | b :: s => if b = 46 then leadingDigits s else []
  withSign negative ((digitsValue (whole ++ fraction) : ℚ) / 10 ^ fraction.length)

/-! ## Digits -/

/-- There are as many digits as were asked for. -/
theorem length_fixedDigits (d n : ℕ) : (fixedDigits d n).length = d := by
  induction d generalizing n with
  | zero => rfl
  | succ d ih =>
    unfold fixedDigits
    rw [List.length_append, ih, List.length_singleton]

/-- The character of a digit is a digit. -/
theorem digitChar_digit {m : ℕ} (hm : m < 10) :
    isDigit (UInt8.ofNat m.digitChar.toNat) = true := by
  unfold isDigit
  rw [toNat_digitChar hm]
  simp only [decide_eq_true_eq]
  omega

/-- They are digits. -/
theorem isDigit_of_mem_fixedDigits {d n : ℕ} {b : UInt8} (hb : b ∈ fixedDigits d n) :
    isDigit b = true := by
  induction d generalizing n with
  | zero => cases hb
  | succ d ih =>
    rcases List.mem_append.mp hb with hb | hb
    · exact ih hb
    · rw [List.mem_singleton.mp hb]
      exact digitChar_digit (Nat.mod_lt n (by decide))

/-- **The digits are those of the remainder.** -/
theorem digitsValue_fixedDigits (d n : ℕ) : digitsValue (fixedDigits d n) = n % 10 ^ d := by
  induction d generalizing n with
  | zero => rw [pow_zero, Nat.mod_one]; rfl
  | succ d ih =>
    unfold fixedDigits
    rw [digitsValue_append_singleton, ih, toNat_digitChar (Nat.mod_lt n (by decide)), pow_succ',
      Nat.mod_mul]
    omega

/-- Digits behind digits. -/
theorem digitsValue_append (l m : List UInt8) :
    digitsValue (l ++ m) = digitsValue l * 10 ^ m.length + digitsValue m := by
  induction m using List.reverseRecOn with
  | nil => simp [digitsValue]
  | append_singleton m b ih =>
    rw [← List.append_assoc, digitsValue_append_singleton, ih, digitsValue_append_singleton,
      List.length_append, List.length_singleton, pow_succ]
    ring

/-! ## Signs -/

/-- A digit is no white space and no sign. -/
theorem isDigit_plain {b : UInt8} (hb : isDigit b = true) :
    isSpace b = false ∧ b ≠ 45 ∧ b ≠ 43 ∧ b ≠ 46 := by
  unfold isDigit at hb
  rw [decide_eq_true_iff] at hb
  refine ⟨?_, ?_, ?_, ?_⟩
  · unfold isSpace
    rw [decide_eq_false_iff_not]
    omega
  all_goals
    rintro rfl
    revert hb
    decide

/-- **A sign and digits**: the sign is taken off. -/
theorem takeSign_signText (negative : Bool) {s : List UInt8}
    (hs : ∀ b ∈ s.head?, isDigit b = true) (hne : s ≠ []) :
    takeSign ((signText negative ++ s).dropWhile isSpace) = (negative, s) := by
  cases s with
  | nil => exact absurd rfl hne
  | cons b s =>
    obtain ⟨hspace, hminus, hplus, -⟩ := isDigit_plain (hs b rfl)
    cases negative with
    | true =>
      have hdash : isSpace 45 = false := by decide
      simp [signText, takeSign, hdash]
    | false =>
      unfold signText takeSign
      simp [hspace, hminus, hplus]

/-- What is printed begins with a digit. -/
theorem head_decimal (n : ℕ) (rest : List UInt8) :
    (∀ b ∈ (decimal n ++ rest).head?, isDigit b = true) ∧ decimal n ++ rest ≠ [] := by
  cases hdecimal : decimal n with
  | nil => exact absurd hdecimal (decimal_ne_nil n)
  | cons b l =>
    refine ⟨?_, by simp⟩
    intro b' hb'
    cases hb'
    exact isDigit_of_mem_decimal (n := n) (hdecimal ▸ List.mem_cons_self)

/-! ## Round trips -/

/-- **An integer that was printed is read again.** -/
theorem sscanfInt_printInt (i : ℤ) {rest : List UInt8} (hrest : EndsDigits rest) :
    sscanfInt (printInt i ++ rest) = some i := by
  have hdigits := leadingDigits_append (fun _ => isDigit_of_mem_decimal) hrest
    (l := decimal i.natAbs)
  obtain ⟨hhead, hne⟩ := head_decimal i.natAbs rest
  unfold sscanfInt printInt
  rw [List.append_assoc, takeSign_signText _ hhead hne]
  dsimp only
  rw [hdigits, if_neg (by simp [decimal_ne_nil]), digitsValue_decimal]
  unfold withSign
  congr 1
  split
  · rename_i hneg
    have hlt : i < 0 := of_decide_eq_true hneg
    omega
  · rename_i hneg
    have hge : ¬ i < 0 := by simpa using hneg
    omega

/-- **A fixed-point number that was printed is read again.** -/
theorem atof_printFixed (d : ℕ) (negative : Bool) (n : ℕ) {rest : List UInt8}
    (hrest : EndsDigits rest) :
    atof (printFixed d negative n ++ rest) = withSign negative ((n : ℚ) / 10 ^ d) := by
  obtain ⟨hhead, hne⟩ := head_decimal (n / 10 ^ d) (46 :: fixedDigits d n ++ rest)
  have hpoint : EndsDigits (46 :: fixedDigits d n ++ rest) := by
    intro b hb
    cases hb
    decide
  have hwhole := leadingDigits_append (fun _ => isDigit_of_mem_decimal) hpoint
    (l := decimal (n / 10 ^ d))
  have hfraction := leadingDigits_append (fun _ => isDigit_of_mem_fixedDigits) hrest
    (l := fixedDigits d n)
  have hvalue : digitsValue (decimal (n / 10 ^ d) ++ fixedDigits d n) = n := by
    rw [digitsValue_append, digitsValue_decimal, length_fixedDigits, digitsValue_fixedDigits]
    exact Nat.div_add_mod' n (10 ^ d)
  unfold atof printFixed
  rw [List.append_assoc, List.append_assoc, List.cons_append, ← List.cons_append,
    takeSign_signText _ hhead hne]
  dsimp only
  rw [hwhole, List.drop_left]
  dsimp only [List.cons_append]
  rw [if_pos rfl, hfraction, hvalue, length_fixedDigits]

end SystemyOperacyjne.Library
