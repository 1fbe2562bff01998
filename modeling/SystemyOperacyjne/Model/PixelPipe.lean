import SystemyOperacyjne.Library.FixedPoint
import SystemyOperacyjne.Library.Tokens
import SystemyOperacyjne.Library.Transition
import SystemyOperacyjne.Model.PixelRecords

/-!
# The picture in the pipe

`cw05/zad2`: any number of slaves draw points, find out after how many iterations each of them
leaves a circle, and write them to a named pipe, each as a text in a block of 50 bytes; the
master reads blocks from the pipe and enters the points in its table, until the pipe is empty and
no slave has it open.

`open` of a named pipe waits for the other side. A write of 50 bytes is one step, as it is no
longer than `PIPE_BUF`, and waits until the pipe has room for all of it; without a reader it ends
the slave.
-/

set_option autoImplicit false

namespace SystemyOperacyjne.Pixels

open Library

/-! ## `slave.c` -/

/-- The loop of `iterRand`, with `left` of its iterations left.
SOURCE: cw05/zad2/slave.c:22-29 -/
def iterLoop (F : Double) (re im : ℚ) : ℕ → ℕ → ℚ → ℚ → ℕ
  | 0, i, _, _ => i
  | left + 1, i, nre, nim =>
    let tnre := nre
    let nre := F.fl (F.fl (F.fl (nre * nre) - F.fl (nim * nim)) + re)
    let nim := F.fl (F.fl (F.fl (2 * tnre) * nim) + im)
    if 2 ≤ F.sqrt (F.fl (F.fl (nre * nre) + F.fl (nim * nim))) then i
    else iterLoop F re im left (i + 1) nre nim

/-- SOURCE: cw05/zad2/slave.c:17-31 -/
def iterRand (F : Double) (K : ℕ) (re im : ℚ) : ℕ :=
  iterLoop F re im K 0 0 0

/-- `%lf`. -/
def printLf (x : ℚ) : List UInt8 :=
  printFixed 6 (x < 0) (roundHalfEven (x * 10 ^ 6)).natAbs

/-- `"%lf %lf %d\n"`.
SOURCE: cw05/zad2/slave.c:59 -/
def recordText (re im : ℚ) (iter : ℤ) : List UInt8 :=
  printLf re ++ 32 :: (printLf im ++ 32 :: (printInt iter ++ [10]))

/-- `sprintf(buf, ..)` of a text: what was behind it in the buffer stays. -/
def sprintf (buf text : List UInt8) : List UInt8 :=
  text ++ 0 :: buf.drop (text.length + 1)

/-- The size of both buffers, and of what is written and read. -/
def bufSize : ℕ := 50

/-! ## `master.c` -/

/-- `" \n\t\r"`. -/
def delimiter (b : UInt8) : Bool :=
  b = 32 ∨ b = 10 ∨ b = 9 ∨ b = 13

/-- What `readValues` makes of its buffer; `iter` stays where there is no number. `none` where
`strtok` returns `NULL`, which `atof` and `sscanf` do not take.
SOURCE: cw05/zad2/master.c:53-59 -/
def parseRecord (buf : List UInt8) (iter : ℤ) : Option Record := do
  let (cre, s) ← strtok delimiter (buf.takeWhile fun b => b ≠ 0)
  let (cim, s) ← strtok delimiter s
  let (citer, _) ← strtok delimiter s
  return { re := atof cre, im := atof cim, iter := (sscanfInt citer).getD iter }

/-! ## The processes -/

/-- What the program is started with: the sizes, the room in the pipe, and the results of `rand()`
of each slave, two for a point; and how `double` rounds. -/
structure Setting (ω : Type) where
  double : Double
  RAND_MAX : ℕ
  R : ℕ
  K : ℕ
  capacity : ℕ
  draws : ω → List (ℕ × ℕ)

inductive SlavePc
  | opening  -- in `open`, or before it
  | writing (left : List (ℕ × ℕ))  -- in the loop
  | ended
  deriving DecidableEq, Repr

structure Slave where
  pc : SlavePc
  buf : List UInt8
  deriving DecidableEq, Repr

inductive MasterPc
  | starting  -- before `open`
  | opening  -- in `open`
  | reading  -- in the loop of `readValues`
  | closing  -- behind it, before `close`
  | done
  | failed  -- a store outside the table, or a block that is no record
  deriving DecidableEq, Repr

/-- The pipe, the slaves and the master; `opened` is whether a slave has opened the pipe. -/
structure State (ω : Type) (R : ℕ) where
  pipe : List UInt8
  opened : Bool
  slave : ω → Slave
  pc : MasterPc
  buf : List UInt8
  iter : ℤ
  table : Table R

/-- A slave writes a record, the master enters one, or finds no more. -/
inductive Event (ω : Type)
  | wrote (o : ω) (record : Record)
  | entered (record : Record)
  | endOfFile
  deriving DecidableEq, Repr

inductive Choice (ω : Type)
  | slave (o : ω)
  | master
  deriving DecidableEq, Repr

/-- The master has the pipe open, or is about to have it. -/
def MasterPc.present : MasterPc → Bool
  | .opening | .reading | .closing => true
  | _ => false

/-- The slave has the pipe open. -/
def SlavePc.present : SlavePc → Bool
  | .writing _ => true
  | _ => false

variable {ω : Type}

/-- The record for two results of `rand()`. -/
def Setting.record (c : Setting ω) (draw : ℕ × ℕ) : Record :=
  slaveRecord c.double c.RAND_MAX draw.1 draw.2 fun re im => iterRand c.double c.K re im

/-- The text for two results of `rand()`.
SOURCE: cw05/zad2/slave.c:55-59 -/
def Setting.text (c : Setting ω) (draw : ℕ × ℕ) : List UInt8 :=
  let re := coordinate c.double c.RAND_MAX draw.1 rMin rMax
  let im := coordinate c.double c.RAND_MAX draw.2 iMin iMax
  recordText re im (iterRand c.double c.K re im)

variable [DecidableEq ω]

def State.setSlave {R : ℕ} (s : State ω R) (o : ω) (t : Slave) : State ω R :=
  { s with slave := Function.update s.slave o t }

/-- One step of a slave; `none` while it waits.
SOURCE: cw05/zad2/slave.c:46-65 -/
def slaveStep (c : Setting ω) (s : State ω c.R) (o : ω) :
    Option (Option (Event ω) × State ω c.R) :=
  let t := s.slave o
  match t.pc with
  | .opening =>
    if s.pc.present then
      some (none, { s.setSlave o { t with pc := .writing (c.draws o) } with opened := true })
    else none
  | .writing [] => some (none, s.setSlave o { t with pc := .ended })
  | .writing (draw :: left) =>
    if s.pc.present then
      let buf := sprintf t.buf (c.text draw)
      if s.pipe.length + bufSize ≤ c.capacity then
        some (some (.wrote o (c.record draw)),
          { s.setSlave o { pc := .writing left, buf } with pipe := s.pipe ++ buf.take bufSize })
      else none
    else some (none, s.setSlave o { t with pc := .ended })  -- `SIGPIPE`
  | .ended => none

/-- One round of the loop of `readValues`.
SOURCE: cw05/zad2/master.c:51-62 -/
def readStep (c : Setting ω) (s : State ω c.R) : Option (Event ω) × State ω c.R :=
  let data := s.pipe.take bufSize
  let buf := data ++ s.buf.drop data.length
  match parseRecord buf s.iter with
  | none => (none, { s with pc := .failed })
  | some record =>
    match enter c.double s.table record with
    | .ok table =>
      (some (.entered record),
        { s with pipe := s.pipe.drop bufSize, buf, iter := record.iter, table })
    | .error _ => (none, { s with pc := .failed })

variable [Fintype ω]

/-- One step of the master; `none` while it waits.
SOURCE: cw05/zad2/master.c:40-65 -/
def masterStep (c : Setting ω) (s : State ω c.R) : Option (Option (Event ω) × State ω c.R) :=
  match s.pc with
  | .starting => some (none, { s with pc := .opening })
  | .opening => if s.opened then some (none, { s with pc := .reading }) else none
  | .reading =>
    if s.pipe = [] then
      if ∃ o, (s.slave o).pc.present = true then none
      else some (some .endOfFile, { s with pc := .closing })
    else some (readStep c s)
  | .closing => some (none, { s with pc := .done })
  | .done | .failed => none

/-- The slaves have been started, and the table is cleared.
SOURCE: cw05/zad2/master.c:96-122 -/
structure Started (c : Setting ω) (s : State ω c.R) : Prop where
  pipe : s.pipe = []
  opened : s.opened = false
  slave : ∀ o, (s.slave o).pc = .opening ∧ (s.slave o).buf.length = bufSize
  pc : s.pc = .starting
  buf : s.buf.length = bufSize
  table : s.table = Vector.replicate c.R (Vector.replicate c.R 0)

/-- The slaves and the master. -/
def pictureProgram (c : Setting ω) : Machine (State ω c.R) (Choice ω) (Option (Event ω)) where
  init := Started c
  next s
    | .slave o => slaveStep c s o
    | .master => masterStep c s

end SystemyOperacyjne.Pixels
