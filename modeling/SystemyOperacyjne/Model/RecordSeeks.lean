import SystemyOperacyjne.Model.RecordShuffle

/-!
# The offsets of the records

The calls of `lseek` and `fseek` that the loops of `cw02/zad1/bsort.c` and `cw02/zad1/shuffler.c`
make for a record, in their order, along the runs of `compareNeighbours` and `exchangeRecords`.
The offset is a product of `int`s, `elemNumber * recordSize` or `i * recordSize`.
-/

set_option autoImplicit false

namespace SystemyOperacyjne.RecordSort

open Library

/-- A call of `lseek` or `fseek`: the number of the record it is for, the offset it is given, and
the offset of the file after it. -/
structure Seek where
  record : ℕ
  offset : ℤ
  position : ℕ
  deriving DecidableEq, Repr

/-- The call for a record, on an open file. -/
def seekRecord (recordSize record : ℕ) (f : ByteFile UInt8) : Seek where
  record := record
  offset := intMul record recordSize
  position := (f.seek (intMul record recordSize)).offset

/-- The calls in the body of the inner loop.
SOURCE: cw02/zad1/bsort.c:24-46, cw02/zad1/bsort.c:85-111 -/
def compareSeeks (c : CharSign) (t : Texts) (recordSize elemNumber : ℕ) (f : ByteFile UInt8) :
    List Seek :=
  seekRecord recordSize elemNumber f ::
    match readRecord t recordSize (f.seek (intMul elemNumber recordSize)) with
    | .error _ => []
    | .ok (record1, f) =>
      match readRecord t recordSize f with
      | .error _ => []
      | .ok (record2, f) =>
        if c.value (record1.headD 0) > c.value (record2.headD 0) then
          [seekRecord recordSize elemNumber f]
        else []

/-- The calls of the inner loop.
SOURCE: cw02/zad1/bsort.c:23-49, cw02/zad1/bsort.c:83-114 -/
def passSeeks (c : CharSign) (t : Texts) (recordSize : ℕ) :
    ℕ → ℕ → Bool → ByteFile UInt8 → List Seek
  | 0, _, _, _ => []
  | iterations + 1, elemNumber, change, f =>
    compareSeeks c t recordSize elemNumber f ++
      match compareNeighbours c t recordSize elemNumber change f with
      | .error _ => []
      | .ok (f, change) => passSeeks c t recordSize iterations (elemNumber + 1) change f

/-- The calls of the outer loop.
SOURCE: cw02/zad1/bsort.c:20-55, cw02/zad1/bsort.c:80-120 -/
def passesSeeks (c : CharSign) (t : Texts) (recordSize : ℕ) : ℕ → ByteFile UInt8 → List Seek
  | 0, _ => []
  | n + 1, f =>
    passSeeks c t recordSize n 0 false f ++
      match pass c t recordSize n 0 false f with
      | .error _ => []
      | .ok (f, change) =>
        if change ∧ 1 < n then passesSeeks c t recordSize n (f.seek 0) else []

/-- The calls of `bSortSys`.
SOURCE: cw02/zad1/bsort.c:7-64 -/
def bSortSysSeeks (c : CharSign) (bytes : List UInt8) (recordAmount recordSize : ℕ) : List Seek :=
  passesSeeks c sysTexts recordSize recordAmount { bytes := bytes, offset := 0 }

/-- The calls of `bSortLib`.
SOURCE: cw02/zad1/bsort.c:66-128 -/
def bSortLibSeeks (c : CharSign) (bytes : List UInt8) (recordAmount recordSize : ℕ) : List Seek :=
  passesSeeks c libTexts recordSize recordAmount { bytes := bytes, offset := 0 }

/-- The calls in one round of a shuffle.
SOURCE: cw02/zad1/shuffler.c:35-51, cw02/zad1/shuffler.c:84-108 -/
def exchangeSeeks (a : Access) (recordSize i j : ℕ) (s : Shuffling) : List Seek :=
  seekRecord recordSize i s.file ::
    match a.read recordSize s.record1 (s.file.seek (intMul i recordSize)) with
    | .error _ => []
    | .ok (_, f) =>
      seekRecord recordSize j f ::
        match a.read recordSize s.record2 (f.seek (intMul j recordSize)) with
        | .error _ => []
        | .ok (record2, f) =>
          seekRecord recordSize i f ::
            match writeRecord a.texts recordSize record2 (f.seek (intMul i recordSize)) with
            | .error _ => []
            | .ok f => [seekRecord recordSize j f]

/-- The calls of the rounds for `i` down to 1.
SOURCE: cw02/zad1/shuffler.c:30-53, cw02/zad1/shuffler.c:80-113 -/
def roundsSeeks (a : Access) (recordSize : ℕ) (rand : Rand) : ℕ → Shuffling → List Seek
  | 0, _ => []
  | i + 1, s =>
    exchangeSeeks a recordSize (i + 1) ((rand (i + 1) : ℕ) % (i + 1)) s ++
      match exchangeRecords a recordSize (i + 1) ((rand (i + 1) : ℕ) % (i + 1)) s with
      | .error _ => []
      | .ok s => roundsSeeks a recordSize rand i s

/-- The calls of `shuffleSys`.
SOURCE: cw02/zad1/shuffler.c:10-62 -/
def shuffleSysSeeks (record1 record2 : List UInt8) (rand : Rand) (bytes : List UInt8)
    (recordAmount recordSize : ℕ) : List Seek :=
  roundsSeeks .sys recordSize rand (recordAmount - 1)
    { file := { bytes := bytes, offset := 0 }, record1 := record1, record2 := record2 }

/-- The calls of `shuffleLib`.
SOURCE: cw02/zad1/shuffler.c:64-121 -/
def shuffleLibSeeks (record1 record2 : List UInt8) (rand : Rand) (bytes : List UInt8)
    (recordAmount recordSize : ℕ) : List Seek :=
  roundsSeeks .lib recordSize rand (recordAmount - 1)
    { file := { bytes := bytes, offset := 0 }, record1 := record1, record2 := record2 }

end SystemyOperacyjne.RecordSort
