import SystemyOperacyjne.Library.Decimal
import SystemyOperacyjne.Model.WordSearch

/-!
# The file of records and the number that is printed

`cw08/zad1/generator.c` writes records that begin with their number, a dot and a capital letter;
what follows is drawn, small letters with blanks between them. `cw08/zad1/main.c` takes the number
of a record from its first two bytes.

`rand` is the sequence of the results of `rand()`; every function that draws is given how many
have been drawn, and returns how many have been after it.
-/

set_option autoImplicit false

namespace SystemyOperacyjne.WordSearch

open Library

/-- The results of `rand()`, one call after the other. -/
abbrev Draws := ℕ → ℕ

/-- `base + (rand() % 26)`. -/
def letterFrom (base draw : ℕ) : UInt8 :=
  UInt8.ofNat (base + draw % 26)

/-- A character of the text, a letter or a blank.
SOURCE: cw08/zad1/generator.c:29 -/
def textChar (rand : Draws) (drawn : ℕ) : UInt8 × ℕ :=
  if rand drawn % 6 ≠ 0 then (letterFrom 97 (rand (drawn + 1)), drawn + 2) else (32, drawn + 1)

/-- The loop that fills in the text, with `left` of its iterations left.
SOURCE: cw08/zad1/generator.c:28-30 -/
def fillText (rand : Draws) : ℕ → ℕ → List UInt8 → ℕ → List UInt8 × ℕ
  | 0, _, record, drawn => (record, drawn)
  | left + 1, j, record, drawn =>
    let (b, drawn) := textChar rand drawn
    fillText rand left (j + 1) (record.set j b) drawn

/-- `snprintf(record, record_length, ..)` of a text, with the length that it returns. -/
def snprintf (record text : List UInt8) : List UInt8 × ℕ :=
  let shown := text.take (record.length - 1)
  (if record.isEmpty then [] else shown ++ 0 :: record.drop (shown.length + 1), text.length)

/-- One record.
SOURCE: cw08/zad1/generator.c:24-32 -/
def makeRecord (rand : Draws) (recordLength i drawn : ℕ) : List UInt8 × ℕ :=
  let record := List.replicate recordLength 0
  let (record, idLength) := snprintf record (decimal i ++ [46])
  let record := record.set idLength (letterFrom 65 (rand drawn))
  let (record, drawn) :=
    fillText rand (recordLength - 1 - (idLength + 1)) (idLength + 1) record (drawn + 1)
  let record := record.set (recordLength - 2) (letterFrom 97 (rand drawn))
  let record := record.set (recordLength - 1) 0
  (record, drawn + 1)

/-- `fprintf(fp, "%s\n", record)`. -/
def printRecord (record : List UInt8) : List UInt8 :=
  record.takeWhile (fun b => b ≠ 0) ++ [10]

/-- The records from number `i` on, with `left` of them left.
SOURCE: cw08/zad1/generator.c:23-35 -/
def generateFrom (rand : Draws) (recordLength : ℕ) : ℕ → ℕ → ℕ → List UInt8
  | 0, _, _ => []
  | left + 1, i, drawn =>
    let (record, drawn) := makeRecord rand recordLength i drawn
    printRecord record ++ generateFrom rand recordLength left (i + 1) drawn

/-- The file that the generator writes.
SOURCE: cw08/zad1/generator.c:8-39 -/
def generator (rand : Draws) (recordsNo recordLength : ℕ) : List UInt8 :=
  generateFrom rand recordLength recordsNo 1 0

/-- `strncpy(record_no, .., n)`: at most `n` bytes, filled up with zeros. -/
def strncpy (source : List UInt8) (n : ℕ) : List UInt8 :=
  let copied := (source.take n).takeWhile fun b => b ≠ 0
  copied ++ List.replicate (n - copied.length) 0

/-- The number that is printed for a record.
SOURCE: cw08/zad1/main.c:120-121 -/
def recordNo (buffer : List UInt8) : ℤ :=
  atoi (strncpy buffer 2)

end SystemyOperacyjne.WordSearch
