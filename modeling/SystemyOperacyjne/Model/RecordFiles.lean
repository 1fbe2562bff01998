import SystemyOperacyjne.Library.Decimal
import SystemyOperacyjne.Model.RecordShuffle

/-!
# Files of generated records

`cw02/zad1/generator.c` fills a file with records of random characters and copies files of
records. `cw02/zad1/main.c` generates, sorts or shuffles a file as the command line says, and
`cw02/zad1/maintime.c` does all of it to three files, to measure the time it takes.
-/

set_option autoImplicit false

namespace SystemyOperacyjne.RecordSort

open Library

/-- A string of C. -/
abbrev CString := List UInt8

/-- The files by their names; `none` where there is none. -/
abbrev Files := CString → Option (List UInt8)

/-- `exit(1)`: what is printed, and the files as they are left. -/
structure Failure where
  text : String
  files : Files

/-- What a process is given: the bytes of `/dev/urandom`, the results of `rand()`, and what is in
the memory of its two buffers. -/
structure Outside where
  random : ℕ → UInt8
  rand : Rand
  memory1 : ℕ → UInt8
  memory2 : ℕ → UInt8

/-- The bytes of a text. -/
def cstring (s : String) : CString :=
  s.toList.map fun c => UInt8.ofNat c.toNat

/-! ## `generator.c` -/

/-- `record[j]%20+65`, in a `char`.
SOURCE: cw02/zad1/generator.c:30 -/
def readable (c : CharSign) (b : UInt8) : UInt8 :=
  UInt8.ofNat ((c.value b).tmod 20 + 65).toNat

/-- The loop over the records, with `left` of them left, after `drawn` random bytes.
SOURCE: cw02/zad1/generator.c:22-37 -/
def generateRecords (c : CharSign) (random : ℕ → UInt8) (recordSize : ℕ) : ℕ → ℕ → List UInt8
  | 0, _ => []
  | left + 1, drawn =>
    let record := (List.range recordSize).map fun j => random (drawn + j)
    record.map (readable c) ++ generateRecords c random recordSize left (drawn + recordSize)

/-- SOURCE: cw02/zad1/generator.c:5-44 -/
def generateRecordsFile (c : CharSign) (w : Outside) (files : Files) (fileName : CString)
    (recordAmount recordSize : ℕ) : Files :=
  Function.update files fileName (some (generateRecords c w.random recordSize recordAmount 0))

/-- The loop of `copyFile`; an exit leaves what has been written.
SOURCE: cw02/zad1/generator.c:63-73 -/
def copyRecords (recordSize : ℕ) : ℕ → ByteFile UInt8 → List UInt8 → Except Exit (List UInt8)
  | 0, _, target => .ok target
  | left + 1, source, target =>
    let (record, source) := source.read recordSize
    if record.length ≠ recordSize then .error ⟨libTexts.readError, target⟩
    else copyRecords recordSize left source (target ++ record)

/-- SOURCE: cw02/zad1/generator.c:47-79 -/
def copyFile (files : Files) (sourceFileName destFileName : CString)
    (recordAmount recordSize : ℕ) : Except Failure Files :=
  match files sourceFileName with
  | none => .error ⟨libTexts.openError, files⟩
  | some _ =>
    let files := Function.update files destFileName (some [])  -- `fopen` with "w"
    let source := { bytes := (files sourceFileName).getD [], offset := 0 }
    match copyRecords recordSize recordAmount source [] with
    | .ok target => .ok (Function.update files destFileName (some target))
    | .error e => .error ⟨e.text, Function.update files destFileName (some e.file)⟩

/-! ## `main.c` -/

/-- A function that works on one file. -/
def onFile (files : Files) (fileName : CString)
    (f : Option (List UInt8) → Except Exit (List UInt8)) : Except Failure Files :=
  match f (files fileName) with
  | .ok file => .ok (Function.update files fileName (some file))
  | .error e =>
    .error ⟨e.text, if (files fileName).isNone then files
      else Function.update files fileName (some e.file)⟩

/-- `bSortSys` or `bSortLib`, on a file with this name. -/
def sortFile (a : Access) (c : CharSign) (files : Files) (fileName : CString)
    (recordAmount recordSize : ℕ) : Except Failure Files :=
  onFile files fileName fun file =>
    match a with
    | .sys => bSortSys c file recordAmount recordSize
    | .lib => bSortLib c file recordAmount recordSize

/-- `ShuffleSys` or `ShuffleLib`, on a file with this name. -/
def shuffleFile (a : Access) (w : Outside) (files : Files) (fileName : CString)
    (recordAmount recordSize : ℕ) : Except Failure Files :=
  let record1 := (List.range recordSize).map w.memory1
  let record2 := (List.range recordSize).map w.memory2
  onFile files fileName fun file =>
    match a with
    | .sys => shuffleSys record1 record2 w.rand file recordAmount recordSize
    | .lib => shuffleLib record1 record2 w.rand file recordAmount recordSize

/-- `sys` or `lib`. -/
def accessOf (word : CString) : Option Access :=
  if word = cstring "sys" then some .sys else if word = cstring "lib" then some .lib else none

/-- `main`, with the arguments behind the name of the program.
SOURCE: cw02/zad1/main.c:10-80 -/
def main (c : CharSign) (w : Outside) (files : Files) : List CString → Except Failure Files
  | [command, nameFile, recordAmount, recordSize] =>
    if command = cstring "generate" then
      .ok (generateRecordsFile c w files nameFile (atoi recordAmount).toNat
        (atoi recordSize).toNat)
    else .ok files
  | [command, how, nameFile, recordAmount, recordSize] =>
    if command = cstring "sort" then
      match accessOf how with
      | some a => sortFile a c files nameFile (atoi recordAmount).toNat (atoi recordSize).toNat
      | none => .ok files
    else if command = cstring "shuffle" then
      match accessOf how with
      | some a => shuffleFile a w files nameFile (atoi recordAmount).toNat (atoi recordSize).toNat
      | none => .ok files
    else .ok files
  | _ => .ok files

/-! ## `maintime.c` -/

def nameFile : CString := cstring "genFile"

def copy : CString := cstring "genCopy"

def finalCopy : CString := cstring "KopiaGenFile"

/-- The first half of `makeTest`: three equal files, and two of them sorted.
SOURCE: cw02/zad1/maintime.c:52-65 -/
def testSorts (c : CharSign) (w : Outside) (recordAmount recordSize : ℕ) (files : Files) :
    Except Failure Files := do
  let files := generateRecordsFile c w files nameFile recordAmount recordSize
  let files ← copyFile files nameFile copy recordAmount recordSize
  let files ← copyFile files nameFile finalCopy recordAmount recordSize
  let files ← sortFile .sys c files nameFile recordAmount recordSize
  sortFile .lib c files copy recordAmount recordSize

/-- The second half: the two files are restored and shuffled.
SOURCE: cw02/zad1/maintime.c:67-78 -/
def testShuffles (w w' : Outside) (recordAmount recordSize : ℕ) (files : Files) :
    Except Failure Files := do
  let files ← copyFile files finalCopy copy recordAmount recordSize
  let files ← copyFile files finalCopy nameFile recordAmount recordSize
  let files ← shuffleFile .sys w files nameFile recordAmount recordSize
  shuffleFile .lib w' files copy recordAmount recordSize

/-- SOURCE: cw02/zad1/maintime.c:46-80 -/
def makeTest (c : CharSign) (w w' : Outside) (recordAmount recordSize : ℕ) (files : Files) :
    Except Failure Files := do
  let files ← testSorts c w recordAmount recordSize files
  testShuffles w w' recordAmount recordSize files

/-- The tests that are made: how many records, and of which size.
SOURCE: cw02/zad1/maintime.c:35-38 -/
def tests : List (ℕ × ℕ) :=
  [(1000, 8192), (1500, 4096), (2000, 512), (3000, 4)]

/-- `main` of `maintime.c`; `w` and `w'` are what each test is given.
SOURCE: cw02/zad1/maintime.c:26-42 -/
def maintime (c : CharSign) (w w' : ℕ × ℕ → Outside) (files : Files) : Except Failure Files :=
  tests.foldlM (fun files test => makeTest c (w test) (w' test) test.1 test.2 files) files

end SystemyOperacyjne.RecordSort
