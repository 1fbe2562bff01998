import Mathlib.Algebra.Order.Floor.Ring
import Mathlib.Algebra.Group.Int.Even
import Mathlib.Tactic.Linarith

/-!
# Rounding to integers

Rounding to the nearest integer, halves to the even one, and rounding towards zero. The rules say
on which side of an integer the result is.
-/

set_option autoImplicit false

namespace SystemyOperacyjne.Library

variable {K : Type*} [Field K] [LinearOrder K] [FloorRing K] {x : K} {n : ℤ}

/-- The nearest integer; the even one where two are. -/
def roundHalfEven (x : K) : ℤ :=
  if x - ⌊x⌋ < 1 / 2 ∨ x - ⌊x⌋ = 1 / 2 ∧ Even ⌊x⌋ then ⌊x⌋ else ⌊x⌋ + 1

/-- The integer next to `x` in the direction of zero. -/
def truncate (x : K) : ℤ :=
  if 0 ≤ x then ⌊x⌋ else ⌈x⌉

/-- The nearest integer is not below the one that is next below. -/
theorem floor_le_roundHalfEven (x : K) : ⌊x⌋ ≤ roundHalfEven x := by
  unfold roundHalfEven
  split
  · exact le_refl _
  · exact (Int.lt_succ _).le

/-- Rounding does not go below an integer that is not above. -/
theorem le_roundHalfEven (h : (n : K) ≤ x) : n ≤ roundHalfEven x :=
  (Int.le_floor.mpr h).trans (floor_le_roundHalfEven x)

/-- Nor above an integer that is not below. -/
theorem roundHalfEven_le [IsStrictOrderedRing K] (h : x ≤ n) : roundHalfEven x ≤ n := by
  rcases h.lt_or_eq with hlt | rfl
  · have hfloor : ⌊x⌋ < n := Int.floor_lt.mpr hlt
    unfold roundHalfEven
    split
    · exact hfloor.le
    · exact hfloor
  · unfold roundHalfEven
    rw [Int.floor_intCast, if_pos (by norm_num)]

/-- Towards zero is down for a number that is not negative. -/
theorem truncate_of_nonneg (h : 0 ≤ x) : truncate x = ⌊x⌋ :=
  if_pos h

variable [IsStrictOrderedRing K]

/-- **Rounding stays below an even integer** exactly for what is more than half a unit below
it. -/
theorem roundHalfEven_lt_iff (hn : Even n) : roundHalfEven x < n ↔ x < n - 1 / 2 := by
  have hfloor := Int.floor_le x
  constructor
  · intro hlt
    by_contra hge
    have hbelow : x < n := by
      by_contra habove
      exact absurd (le_roundHalfEven (not_lt.mp habove)) (not_le.mpr hlt)
    have heq : ⌊x⌋ = n - 1 := by
      rw [Int.floor_eq_iff]
      push_cast
      constructor
      · linarith
      · linarith
    have hodd : ¬ Even ⌊x⌋ := by
      rw [heq, Int.even_sub_one]
      simpa using hn
    have hhalf : ¬ (x - ⌊x⌋ < 1 / 2 ∨ x - ⌊x⌋ = 1 / 2 ∧ Even ⌊x⌋) := by
      rintro (hless | ⟨-, heven⟩)
      · rw [heq] at hless
        push_cast at hless
        linarith
      · exact hodd heven
    rw [roundHalfEven, if_neg hhalf, heq] at hlt
    omega
  · intro hlt
    have hle : ⌊x⌋ ≤ n - 1 := by
      have : ⌊x⌋ < n := Int.floor_lt.mpr (by linarith)
      omega
    unfold roundHalfEven
    split
    · omega
    · rename_i hup
      have hne : ⌊x⌋ ≠ n - 1 := by
        intro heq
        apply hup
        rw [heq]
        push_cast
        exact .inl (by linarith)
      omega

/-- An integer is its own. -/
@[simp]
theorem truncate_intCast (n : ℤ) : truncate (n : K) = n := by
  unfold truncate
  split
  · exact Int.floor_intCast n
  · exact Int.ceil_intCast n

end SystemyOperacyjne.Library
