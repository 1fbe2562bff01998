import Mathlib.Data.Nat.Sqrt
import Mathlib.Data.Rat.Floor
import Mathlib.Order.Monotone.Basic
import Mathlib.Tactic.Linarith
import Mathlib.Tactic.Positivity

/-!
# Floating-point arithmetic

A binary floating-point type by what its rounding is: the result of an operation is the exact one,
rounded, and the rounding keeps the order, leaves the integers of `p` digits as they are and is as
close as `p` digits allow. Results that are no numbers are left out: this is about computations
whose results stay far below the greatest number of the type.
-/

set_option autoImplicit false

namespace SystemyOperacyjne.Library

/-- Rounding to `p` binary digits, and the square root, which is not a rational number before it
is rounded. -/
structure Floating (p : ℕ) where
  fl : ℚ → ℚ
  sqrt : ℚ → ℚ
  mono : Monotone fl
  fl_int : ∀ n : ℤ, n.natAbs ≤ 2 ^ p → fl n = n
  close : ∀ x, |fl x - x| ≤ (|x| + 1) / 2 ^ p  -- the `1` is for the numbers next to zero

/-- No rounding; of the square root only the whole part. -/
def rational (p : ℕ) : Floating p where
  fl x := x
  sqrt x := (Nat.sqrt ⌊x⌋₊ : ℚ)
  mono _ _ h := h
  fl_int _ _ := rfl
  close x := by
    rw [sub_self, abs_zero]
    positivity

/-- Rational numbers are not rounded. -/
@[simp]
theorem rational_fl (p : ℕ) (x : ℚ) : (rational p).fl x = x :=
  rfl

namespace Floating

variable {p : ℕ} (F : Floating p) {x y : ℚ} {n : ℤ}

/-- Nor is zero. -/
@[simp]
theorem fl_zero : F.fl 0 = 0 :=
  F.fl_int 0 (Nat.zero_le _)

/-- **Rounding does not pass an integer** from below. -/
theorem fl_le (hn : n.natAbs ≤ 2 ^ p) (h : x ≤ n) : F.fl x ≤ n := by
  rw [← F.fl_int n hn]
  exact F.mono h

/-- Nor from above. -/
theorem le_fl (hn : n.natAbs ≤ 2 ^ p) (h : (n : ℚ) ≤ x) : n ≤ F.fl x := by
  rw [← F.fl_int n hn]
  exact F.mono h

/-- Rounding does not make a number negative. -/
theorem fl_nonneg (h : 0 ≤ x) : 0 ≤ F.fl x := by
  rw [← F.fl_zero]
  exact F.mono h

/-- A quotient of two numbers in order is at most one. -/
theorem fl_div_le_one (hx : 0 ≤ x) (h : x ≤ y) : F.fl (x / y) ≤ 1 := by
  have hone : x / y ≤ ((1 : ℤ) : ℚ) := by
    rw [Int.cast_one]
    exact div_le_one_of_le₀ h (hx.trans h)
  have hle := F.fl_le (n := 1) Nat.one_le_two_pow hone
  rwa [Int.cast_one] at hle

end Floating

end SystemyOperacyjne.Library
