import SystemyOperacyjne.Model.PixelRecords

/-!
# Which points have a pixel

A point drawn by a slave is never to the left of the table or below it. It is within the table
unless its coordinate is so close to the upper bound that the record shows the bound itself: the
bound is scaled to `R`, and the last row and the last column are `R - 1`. Without rounding this is
half a millionth; and however `double` rounds, a point that is more than a millionth below both
bounds is within the table.
-/

set_option autoImplicit false

namespace SystemyOperacyjne.Pixels

open Library

variable {F : Double} {R RAND_MAX r : ℕ} {x value : ℚ} {min max : ℤ}

/-! ## The decimal numbers of a record -/

/-- Six decimals do not go below an integer bound. -/
theorem le_lf (h : (min : ℚ) ≤ x) : (min : ℚ) ≤ lf x := by
  have hscaled : ((min * 10 ^ 6 : ℤ) : ℚ) ≤ x * 10 ^ 6 := by
    push_cast
    linarith
  have hround : ((min * 10 ^ 6 : ℤ) : ℚ) ≤ roundHalfEven (x * 10 ^ 6) :=
    Int.cast_le.mpr (le_roundHalfEven hscaled)
  unfold lf
  rw [le_div_iff₀ (by norm_num)]
  exact_mod_cast hround

/-- **Six decimals reach an integer bound** from half a unit of the last decimal below it. -/
theorem lf_lt_iff : lf x < max ↔ x < max - 1 / (2 * 10 ^ 6) := by
  have heven : Even (max * 10 ^ 6) := by
    apply Even.mul_left
    decide
  have hround := roundHalfEven_lt_iff (x := x * 10 ^ 6) heven
  unfold lf
  rw [div_lt_iff₀ (by norm_num)]
  calc
    (roundHalfEven (x * 10 ^ 6) : ℚ) < max * 10 ^ 6
        ↔ roundHalfEven (x * 10 ^ 6) < max * 10 ^ 6 := by exact_mod_cast Iff.rfl
    _ ↔ x * 10 ^ 6 < ((max * 10 ^ 6 : ℤ) : ℚ) - 1 / 2 := hround
    _ ↔ x < max - 1 / (2 * 10 ^ 6) := by
        push_cast
        constructor
        · intro h
          linarith
        · intro h
          linarith

/-! ## Scaling without rounding -/

/-- The value of `scale` is a rounding down. -/
theorem scale_eq_floor (h : min < max) (hvalue : (min : ℚ) ≤ value) :
    scale (rational 53) R value min max = ⌊(value - min) / ((max - min : ℤ) : ℚ) * R⌋ := by
  have hwidth : (0 : ℚ) < (max - min : ℤ) := Int.cast_pos.mpr (by omega)
  apply truncate_of_nonneg
  apply mul_nonneg
  · exact div_nonneg (sub_nonneg.mpr hvalue) hwidth.le
  · exact Nat.cast_nonneg R

/-- It is not negative. -/
theorem scale_nonneg (h : min < max) (hvalue : (min : ℚ) ≤ value) :
    0 ≤ scale (rational 53) R value min max := by
  have hwidth : (0 : ℚ) < (max - min : ℤ) := Int.cast_pos.mpr (by omega)
  rw [scale_eq_floor h hvalue, Int.floor_nonneg]
  apply mul_nonneg
  · exact div_nonneg (by linarith) hwidth.le
  · exact Nat.cast_nonneg R

/-- **A value has a pixel** exactly when it is below the upper bound. -/
theorem scale_lt_iff (hR : 1 ≤ R) (h : min < max) (hvalue : (min : ℚ) ≤ value) :
    scale (rational 53) R value min max < R ↔ value < max := by
  have hwidth : (0 : ℚ) < (max - min : ℤ) := Int.cast_pos.mpr (by omega)
  have hpos : (0 : ℚ) < R := Nat.cast_pos.mpr hR
  rw [scale_eq_floor h hvalue, Int.floor_lt]
  calc
    (value - min) / ((max - min : ℤ) : ℚ) * R < ((R : ℤ) : ℚ)
        ↔ (value - min) / ((max - min : ℤ) : ℚ) * R < 1 * R := by rw [one_mul, Int.cast_natCast]
    _ ↔ (value - min) / ((max - min : ℤ) : ℚ) < 1 := mul_lt_mul_iff_left₀ hpos
    _ ↔ value - min < (max - min : ℤ) := div_lt_one hwidth
    _ ↔ value < max := by
        push_cast
        exact sub_lt_sub_iff_right _

/-! ## The coordinates drawn -/

/-- The integers of both rectangle sides. -/
structure Bounds (min max : ℤ) : Prop where
  low : -2 ≤ min
  lt : min < max
  high : max ≤ 1

/-- Such integers are not rounded. -/
theorem Bounds.fl (h : Bounds min max) :
    F.fl min = min ∧ F.fl max = max ∧ F.fl (max - min) = max - min := by
  obtain ⟨hlow, hlt, hhigh⟩ := h
  refine ⟨F.fl_int min (by omega), F.fl_int max (by omega), ?_⟩
  have hwidth := F.fl_int (max - min) (by omega)
  push_cast at hwidth
  exact hwidth

/-- The part of the width that a coordinate is from its lower bound. -/
theorem part_mem (h : Bounds min max) (hr : r ≤ RAND_MAX) :
    0 ≤ F.fl (F.fl (F.fl r / F.fl RAND_MAX) * F.fl (max - min)) ∧
      F.fl (F.fl (F.fl r / F.fl RAND_MAX) * F.fl (max - min)) ≤ (max - min : ℤ) := by
  have hwidth : (0 : ℚ) < max - min := sub_pos.mpr (Int.cast_lt.mpr h.lt)
  have hnonneg : 0 ≤ F.fl r := F.fl_nonneg (Nat.cast_nonneg r)
  have hle : F.fl r ≤ F.fl RAND_MAX := F.mono (Nat.cast_le.mpr hr)
  have hquotient : 0 ≤ F.fl (F.fl r / F.fl RAND_MAX) :=
    F.fl_nonneg (div_nonneg hnonneg (hnonneg.trans hle))
  have hone := F.fl_div_le_one hnonneg hle
  rw [h.fl.2.2]
  constructor
  · exact F.fl_nonneg (mul_nonneg hquotient hwidth.le)
  · apply F.fl_le
    · obtain ⟨hlow, hlt, hhigh⟩ := h
      omega
    · push_cast
      exact mul_le_of_le_one_left hwidth.le hone

/-- **A coordinate drawn is within its bounds**, however `double` rounds. -/
theorem coordinate_mem (h : Bounds min max) (hr : r ≤ RAND_MAX) :
    (min : ℚ) ≤ coordinate F RAND_MAX r min max ∧ coordinate F RAND_MAX r min max ≤ max := by
  obtain ⟨hlow, hhigh⟩ := part_mem (F := F) h hr
  push_cast at hhigh
  obtain ⟨hmin, hlt, hmax⟩ := h
  unfold coordinate
  constructor
  · apply F.le_fl (by omega)
    linarith
  · apply F.fl_le (by omega)
    linarith

/-- A coordinate drawn is not below the lower bound. -/
theorem le_coordinate (h : min < max) :
    (min : ℚ) ≤ coordinate (rational 53) RAND_MAX r min max := by
  have hwidth : (min : ℚ) < max := Int.cast_lt.mpr h
  have hpart : 0 ≤ (r : ℚ) / RAND_MAX * (max - min) := by
    apply mul_nonneg
    · positivity
    · linarith
  unfold coordinate
  simp only [rational_fl]
  linarith

/-- How close to its upper bound a coordinate is. -/
theorem coordinate_lt_iff (hRand : 0 < RAND_MAX) (y : ℚ) :
    coordinate (rational 53) RAND_MAX r min max < y ↔
      r * (max - min : ℚ) < (y - min) * RAND_MAX := by
  have hpos : (0 : ℚ) < RAND_MAX := Nat.cast_pos.mpr hRand
  unfold coordinate
  simp only [rational_fl]
  rw [← lt_sub_iff_add_lt, div_mul_eq_mul_div, div_lt_iff₀ hpos]

/-- **A coordinate drawn has a pixel**, once written and read back, unless it is within half a
millionth of the upper bound. -/
theorem scale_coordinate_iff (hR : 1 ≤ R) (hRand : 0 < RAND_MAX) (h : min < max) :
    (0 ≤ scale (rational 53) R (lf (coordinate (rational 53) RAND_MAX r min max)) min max ∧
        scale (rational 53) R (lf (coordinate (rational 53) RAND_MAX r min max)) min max < R) ↔
      r * (max - min : ℚ) < (max - 1 / (2 * 10 ^ 6) - min) * RAND_MAX := by
  have hlow : (min : ℚ) ≤ lf (coordinate (rational 53) RAND_MAX r min max) :=
    le_lf (le_coordinate h)
  rw [scale_lt_iff hR h hlow, lf_lt_iff, coordinate_lt_iff hRand]
  exact and_iff_right (scale_nonneg h hlow)

/-! ## What rounding can change -/

/-- The indices are those of a cell of the table. -/
def InTable (R : ℕ) (p : ℤ × ℤ) : Prop :=
  (0 ≤ p.1 ∧ p.1 < R) ∧ 0 ≤ p.2 ∧ p.2 < R

instance (R : ℕ) (p : ℤ × ℤ) : Decidable (InTable R p) :=
  inferInstanceAs (Decidable (_ ∧ _))

/-- A record is entered exactly when its indices are those of a cell. -/
theorem exists_enter_iff (T : Table R) (record : Record) :
    (∃ T', enter F T record = .ok T') ↔ InTable R (indices F R record) := by
  unfold enter InTable
  simp only [bind_eq_ok_iff]
  constructor
  · rintro ⟨T', row, hrow, row', hrow', -⟩
    constructor
    · exact (exists_load_iff _ _).mp ⟨row, hrow⟩
    · exact (exists_store_iff _ _ _).mp ⟨row', hrow'⟩
  · rintro ⟨hre, him⟩
    obtain ⟨row, hrow⟩ := (exists_load_iff Failure.outOfBounds T).mpr hre
    obtain ⟨row', hrow'⟩ := (exists_store_iff Failure.outOfBounds row record.iter).mpr him
    obtain ⟨T', hT'⟩ := (exists_store_iff Failure.outOfBounds T row').mpr hre
    exact ⟨T', row, hrow, row', hrow', hT'⟩

/-! ## The point of a slave -/

/-- The bounds of the rectangle are integers. -/
theorem bounds_eq : rMin = ((-2 : ℤ) : ℚ) ∧ rMax = ((1 : ℤ) : ℚ) ∧ iMin = ((-1 : ℤ) : ℚ) ∧
    iMax = ((1 : ℤ) : ℚ) := by
  decide +kernel

/-- **The point a slave writes has a pixel** exactly when neither coordinate is within half a
millionth of its upper bound. -/
theorem mapped_iff (iterRand : ℚ → ℚ → ℤ) {r1 r2 : ℕ} (hR : 1 ≤ R) (hRand : 0 < RAND_MAX) :
    InTable R (indices (rational 53) R (slaveRecord (rational 53) RAND_MAX r1 r2 iterRand)) ↔
      6000000 * r1 < 5999999 * RAND_MAX ∧ 4000000 * r2 < 3999999 * RAND_MAX := by
  obtain ⟨hrMin, hrMax, hiMin, hiMax⟩ := bounds_eq
  have hre := scale_coordinate_iff (r := r1) hR hRand (show (-2 : ℤ) < 1 by decide)
  have him := scale_coordinate_iff (r := r2) hR hRand (show (-1 : ℤ) < 1 by decide)
  unfold InTable indices slaveRecord
  rw [hrMin, hrMax, hiMin, hiMax]
  simp only [truncate_intCast, rational_fl]
  apply and_congr
  · rw [hre, ← Nat.cast_lt (α := ℚ)]
    push_cast
    constructor
    · intro h
      linarith
    · intro h
      linarith
  · rw [him, ← Nat.cast_lt (α := ℚ)]
    push_cast
    constructor
    · intro h
      linarith
    · intro h
      linarith

/-- A point with both coordinates below their bounds. -/
theorem mapped_iff_inner : InTable 100 (indices (rational 53) 100
    (slaveRecord (rational 53) 2147483647 2147482647 1073741823 fun _ _ => 20)) :=
  (mapped_iff _ (by decide) (by decide)).mpr (by decide)

/-- The greatest result of `rand()` gives the bound itself, and with one pixel index `1`. -/
theorem corner_not_mapped :
    indices (rational 53) 1 (slaveRecord (rational 53) 2147483647 2147483647 0 fun _ _ => 0) =
        (1, 0) ∧
      ¬ ∀ R RAND_MAX r1 r2 : ℕ, ∀ iterRand : ℚ → ℚ → ℤ, 1 ≤ R → r1 ≤ RAND_MAX → r2 ≤ RAND_MAX →
        0 < RAND_MAX → InTable R
          (indices (rational 53) R (slaveRecord (rational 53) RAND_MAX r1 r2 iterRand)) := by
  have hcorner : indices (rational 53) 1
      (slaveRecord (rational 53) 2147483647 2147483647 0 fun _ _ => 0) = (1, 0) := by
    decide +kernel
  constructor
  · exact hcorner
  · intro h
    have hin := h 1 2147483647 2147483647 0 (fun _ _ => 0) (by decide) (by decide) (by decide)
      (by decide)
    rw [hcorner] at hin
    exact absurd hin (by decide)

end SystemyOperacyjne.Pixels
