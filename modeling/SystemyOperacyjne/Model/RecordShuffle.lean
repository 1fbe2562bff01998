import SystemyOperacyjne.Model.RecordSort

/-!
# Shuffling the records of a file in place

`cw02/zad1/shuffler.c`: from the last record to the second, every record is exchanged with one
that `rand()` chooses, by two reads and two writes. `shuffleLib` takes a short read for an error
and `shuffleSys` does not look: what a short read leaves of the buffer is written with the rest.
-/

set_option autoImplicit false

namespace SystemyOperacyjne.RecordSort

open Library

def RAND_MAX : ℕ := 2147483647

/-- The number that `rand()` returns in the round for record `i`. -/
abbrev Rand := ℕ → Fin (RAND_MAX + 1)

/-- How the file is accessed. -/
inductive Access
  | sys
  | lib
  deriving DecidableEq, Repr

def Access.texts : Access → Texts
  | .sys => sysTexts
  | .lib => libTexts

/-- Read one record into a buffer.
SOURCE: cw02/zad1/shuffler.c:36, cw02/zad1/shuffler.c:39, cw02/zad1/shuffler.c:86-95 -/
def Access.read (a : Access) (recordSize : ℕ) (buffer : List UInt8) (f : ByteFile UInt8) :
    Except Exit (List UInt8 × ByteFile UInt8) :=
  match a with
  | .sys =>
    let (data, f) := f.read recordSize
    .ok (data ++ buffer.drop data.length, f)  -- the number of bytes is not looked at
  | .lib => readRecord libTexts recordSize f

/-- The file and the two buffers. -/
structure Shuffling where
  file : ByteFile UInt8
  record1 : List UInt8
  record2 : List UInt8
  deriving DecidableEq, Repr

/-- One round: records `i` and `j` are exchanged.
SOURCE: cw02/zad1/shuffler.c:35-51, cw02/zad1/shuffler.c:84-108 -/
def exchangeRecords (a : Access) (recordSize i j : ℕ) (s : Shuffling) :
    Except Exit Shuffling := do
  let f := s.file.seek (intMul i recordSize)
  let (record1, f) ← a.read recordSize s.record1 f
  let f := f.seek (intMul j recordSize)
  let (record2, f) ← a.read recordSize s.record2 f
  let f := f.seek (intMul i recordSize)
  let f ← writeRecord a.texts recordSize record2 f
  let f := f.seek (intMul j recordSize)
  let f ← writeRecord a.texts recordSize record1 f
  return { file := f, record1 := record1, record2 := record2 }

/-- The rounds for `i` down to 1.
SOURCE: cw02/zad1/shuffler.c:30-53, cw02/zad1/shuffler.c:80-113 -/
def rounds (a : Access) (recordSize : ℕ) (rand : Rand) : ℕ → Shuffling → Except Exit Shuffling
  | 0, s => .ok s
  | i + 1, s => do
    let j := (rand (i + 1) : ℕ) % (i + 1)
    let s ← exchangeRecords a recordSize (i + 1) j s
    rounds a recordSize rand i s

/-- Open the file and shuffle it; the buffers hold what `malloc` gave, and `none` is a file that
cannot be opened. -/
def shuffle (a : Access) (record1 record2 : List UInt8) (rand : Rand) (file : Option (List UInt8))
    (recordAmount recordSize : ℕ) : Except Exit (List UInt8) :=
  match file with
  | none => .error ⟨a.texts.openError, []⟩
  | some bytes =>
    (rounds a recordSize rand (recordAmount - 1)
      { file := { bytes := bytes, offset := 0 }, record1 := record1, record2 := record2 }).map
        fun s => s.file.bytes

/-- SOURCE: cw02/zad1/shuffler.c:10-62 -/
def shuffleSys (record1 record2 : List UInt8) (rand : Rand) (file : Option (List UInt8))
    (recordAmount recordSize : ℕ) : Except Exit (List UInt8) :=
  shuffle .sys record1 record2 rand file recordAmount recordSize

/-- SOURCE: cw02/zad1/shuffler.c:64-121 -/
def shuffleLib (record1 record2 : List UInt8) (rand : Rand) (file : Option (List UInt8))
    (recordAmount recordSize : ℕ) : Except Exit (List UInt8) :=
  shuffle .lib record1 record2 rand file recordAmount recordSize

end SystemyOperacyjne.RecordSort
