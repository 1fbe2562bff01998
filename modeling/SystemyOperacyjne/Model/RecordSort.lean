import Mathlib
import SystemyOperacyjne.Library.ByteFile
import SystemyOperacyjne.Library.CheckedArray

/-!
# Sorting the records of a file in place

`cw02/zad1/bsort.c`: bubble sort over the records of a file, by seeking to two neighbours,
reading both and writing them back the other way round. `bSortSys` does it with system calls
and `bSortLib` with the functions of `stdio.h`; apart from the texts of their errors the two
are the same, so the loops are given once.

`char` may be signed or not, and `elemNumber * recordSize` is a product of `int`s, modulo
`2 ^ 32`.
-/

set_option autoImplicit false

namespace SystemyOperacyjne.RecordSort

open Library

/-- Whether plain `char` is signed. -/
inductive CharSign
  | signed
  | unsigned
  deriving DecidableEq, Repr

/-- The value of a `char` that holds a byte. -/
def CharSign.value : CharSign → UInt8 → ℤ
  | .signed, b => Int.bmod b.toNat 256
  | .unsigned, b => b.toNat

/-- The product of two `int`s. -/
def intMul (a b : ℤ) : ℤ :=
  Int.bmod (a * b) (2 ^ 32)

/-- `exit(1)`: what is printed, and the file as it is left. -/
structure Exit where
  text : String
  file : List UInt8
  deriving DecidableEq, Repr

/-- The texts of the errors, in which the two functions differ. -/
structure Texts where
  openError : String
  readError : String
  writeError : String

def sysTexts : Texts where
  openError := "open error"
  readError := "read error\n"
  writeError := "write error\n"

def libTexts : Texts where
  openError := "fopen error\n"
  readError := "fread error\n"
  writeError := "fwrite error\n"

/-- Read one record, or exit. -/
def readRecord (t : Texts) (recordSize : ℕ) (f : ByteFile UInt8) :
    Except Exit (List UInt8 × ByteFile UInt8) :=
  let (record, f) := f.read recordSize
  if record.length ≠ recordSize then .error ⟨t.readError, f.bytes⟩ else .ok (record, f)

/-- Write one record, or exit. -/
def writeRecord (t : Texts) (recordSize : ℕ) (record : List UInt8) (f : ByteFile UInt8) :
    Except Exit (ByteFile UInt8) :=
  let (n, f) := f.write record
  if n ≠ recordSize then .error ⟨t.writeError, f.bytes⟩ else .ok f

/-- The body of the inner loop: the file, and `change`.
SOURCE: cw02/zad1/bsort.c:24-46, cw02/zad1/bsort.c:85-111 -/
def compareNeighbours (c : CharSign) (t : Texts) (recordSize elemNumber : ℕ) (change : Bool)
    (f : ByteFile UInt8) : Except Exit (ByteFile UInt8 × Bool) := do
  let f := f.seek (intMul elemNumber recordSize)
  let (record1, f) ← readRecord t recordSize f
  let (record2, f) ← readRecord t recordSize f
  if c.value (record1.headD 0) > c.value (record2.headD 0) then
    let f := f.seek (intMul elemNumber recordSize)
    let f ← writeRecord t recordSize record2 f
    let f ← writeRecord t recordSize record1 f
    return (f, true)
  else return (f, change)

/-- The inner loop, with `iterations` of it left.
SOURCE: cw02/zad1/bsort.c:23-49, cw02/zad1/bsort.c:83-114 -/
def pass (c : CharSign) (t : Texts) (recordSize : ℕ) :
    ℕ → ℕ → Bool → ByteFile UInt8 → Except Exit (ByteFile UInt8 × Bool)
  | 0, _, change, f => .ok (f, change)
  | iterations + 1, elemNumber, change, f => do
    let (f, change) ← compareNeighbours c t recordSize elemNumber change f
    pass c t recordSize iterations (elemNumber + 1) change f

/-- The outer loop: passes over `n` records, then over one less, and so on.
SOURCE: cw02/zad1/bsort.c:20-55, cw02/zad1/bsort.c:80-120 -/
def passes (c : CharSign) (t : Texts) (recordSize : ℕ) :
    ℕ → ByteFile UInt8 → Except Exit (ByteFile UInt8)
  | 0, f => .ok (f.seek 0)
  | n + 1, f => do
    let (f, change) ← pass c t recordSize n 0 false f
    let f := f.seek 0
    if change ∧ 1 < n then passes c t recordSize n f else return f

/-- Open the file and sort it; `none` is a file that cannot be opened. -/
def bSort (t : Texts) (c : CharSign) (file : Option (List UInt8)) (recordAmount recordSize : ℕ) :
    Except Exit (List UInt8) :=
  match file with
  | none => .error ⟨t.openError, []⟩
  | some bytes => (passes c t recordSize recordAmount { bytes := bytes, offset := 0 }).map
      ByteFile.bytes

/-- SOURCE: cw02/zad1/bsort.c:7-64 -/
def bSortSys (c : CharSign) (file : Option (List UInt8)) (recordAmount recordSize : ℕ) :
    Except Exit (List UInt8) :=
  bSort sysTexts c file recordAmount recordSize

/-- SOURCE: cw02/zad1/bsort.c:66-128 -/
def bSortLib (c : CharSign) (file : Option (List UInt8)) (recordAmount recordSize : ℕ) :
    Except Exit (List UInt8) :=
  bSort libTexts c file recordAmount recordSize

end SystemyOperacyjne.RecordSort
