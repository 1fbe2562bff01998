import SystemyOperacyjne.Library.CheckedArray
import SystemyOperacyjne.Library.Floating
import SystemyOperacyjne.Library.Rounding

/-!
# Points and pixels

`cw05/zad2`: `slave.c` draws points of a rectangle and writes each of them as a record, and
`readValues` of `master.c` reads the records and enters them in a table of `R` by `R` pixels.
The rounding of `double` is a parameter, as is `iterRand`, the value to be entered.
-/

set_option autoImplicit false

namespace SystemyOperacyjne.Pixels

open Library

abbrev Double := Floating 53

def rMin : ℚ := -2

def rMax : ℚ := 1

def iMin : ℚ := -1

def iMax : ℚ := 1

/-- A record, as its decimal numbers read. -/
structure Record where
  re : ℚ
  im : ℚ
  iter : ℤ
  deriving DecidableEq, Repr

/-- The number that `%lf` prints: six decimals. -/
def lf (x : ℚ) : ℚ :=
  (roundHalfEven (x * 10 ^ 6) : ℚ) / 10 ^ 6

/-- A coordinate between `min` and `max`, for the result `r` of `rand()`.
SOURCE: cw05/zad2/slave.c:55-56 -/
def coordinate (F : Double) (RAND_MAX r : ℕ) (min max : ℚ) : ℚ :=
  F.fl (F.fl (F.fl (F.fl r / F.fl RAND_MAX) * F.fl (max - min)) + min)

/-- The record written for two results of `rand()`.
SOURCE: cw05/zad2/slave.c:54-60 -/
def slaveRecord (F : Double) (RAND_MAX r1 r2 : ℕ) (iterRand : ℚ → ℚ → ℤ) : Record :=
  let re := coordinate F RAND_MAX r1 rMin rMax
  let im := coordinate F RAND_MAX r2 iMin iMax
  { re := lf re, im := lf im, iter := iterRand re im }

/-- SOURCE: cw05/zad2/master.c:20-23 -/
def scale (F : Double) (R : ℕ) (value : ℚ) (min max : ℤ) : ℤ :=
  truncate (F.fl (F.fl (F.fl (value - F.fl min) / F.fl (max - min : ℤ)) * F.fl R))

/-- The indices that a record is entered at; `atof` rounds, and the bounds are converted to `int`
in the calls.
SOURCE: cw05/zad2/master.c:57-58 -/
def indices (F : Double) (R : ℕ) (record : Record) : ℤ × ℤ :=
  (scale F R (F.fl record.re) (truncate rMin) (truncate rMax),
    scale F R (F.fl record.im) (truncate iMin) (truncate iMax))

/-- An access outside the table. -/
inductive Failure
  | outOfBounds
  deriving DecidableEq, Repr

/-- The table `T`. -/
abbrev Table (R : ℕ) := Vector (Vector ℤ R) R

/-- `T[re][im]=iter`.
SOURCE: cw05/zad2/master.c:61 -/
def enter {R : ℕ} (F : Double) (T : Table R) (record : Record) : Except Failure (Table R) := do
  let (re, im) := indices F R record
  let row ← load .outOfBounds T re
  let row ← store .outOfBounds row im record.iter
  store .outOfBounds T re row

/-- The loop over the records.
SOURCE: cw05/zad2/master.c:49-62 -/
def readValues {R : ℕ} (F : Double) (T : Table R) (records : List Record) :
    Except Failure (Table R) :=
  records.foldlM (enter F) T

end SystemyOperacyjne.Pixels
