import Mathlib.Data.List.Infix
import SystemyOperacyjne.Library.ByteFile
import SystemyOperacyjne.Library.Transition

/-!
# The parallel search for a word

`cw08/zad1/main.c`: threads read a file of records in batches of `records_no`, one at a time
under a mutex, and search the records of their batch for a word. `VERSION` chooses when they
stop. In version 1 a thread that has found the word, or has met the end of the file, cancels
the others asynchronously; in version 2 a thread that has found the word cancels the others,
which die at their next cancellation point; in version 3 cancellation is disabled, and a
thread returns after its first batch.

A thread that is cancelled releases no mutex. Cancelling one that has ended does nothing. The
threads begin when all of them have been created (`START`). `strstr` looks at a record up to
its first zero byte; the byte behind the 1024 bytes of the buffer is zero.
-/

set_option autoImplicit false

namespace SystemyOperacyjne.WordSearch

open Library

/-- The values of `VERSION`. -/
inductive Version
  | one  -- asynchronous cancellation
  | two  -- deferred cancellation
  | three  -- no cancellation
  deriving DecidableEq, Repr

def BUFFSIZE : ℕ := 1024

/-- What the program is started with; `charsReaded` is what stands in `CharsReaded_no` of each
thread, which is not initialised. -/
structure Setting (T : ℕ) where
  version : Version
  recordsNo : ℕ
  word : List UInt8
  file : List UInt8
  charsReaded : Fin T → ℤ

/-- A buffer of `readingBuffer`, and which record of the file has been read into it. -/
structure Buffer where
  bytes : List UInt8
  record : Option ℕ
  deriving DecidableEq, Repr

/-- The points of `run`. -/
inductive Pc
  | lock  -- `pthread_mutex_lock`
  | read (i : ℕ)  -- the loop that reads the batch
  | testEof  -- `CharsReaded_no == 0`, in version 1
  | cancelEof (j : ℕ)  -- the loop of `pthread_cancel` at the end of the file
  | unlockEof  -- `pthread_mutex_unlock` there
  | unlock  -- `pthread_mutex_unlock`
  | pause  -- `usleep` and `pthread_testcancel`, in version 2
  | search (i : ℕ)  -- the loop that searches the batch
  | print (i : ℕ)  -- the word was found: `printf`
  | cancel (j : ℕ)  -- the loop of `pthread_cancel` that follows
  | loopEnd (keepGoing : Bool)  -- the end of the `while` loop
  | returned
  | cancelled
  deriving DecidableEq, Repr

/-- The thread takes no more steps. -/
def Pc.ended : Pc → Bool
  | .returned | .cancelled => true
  | _ => false

/-- A thread's variables, and whether `pthread_cancel` has been called for it. -/
structure Thread where
  pc : Pc
  readingBuffer : ℕ → Buffer
  charsReaded : ℤ
  cancelRequested : Bool

/-- The file offset, the mutex with its holder, and the threads. -/
structure State (T : ℕ) where
  offset : ℕ
  mutex : Option (Fin T)
  thread : Fin T → Thread

/-- A record is reported. -/
structure Report (T : ℕ) where
  thread : Fin T
  buffer : Buffer
  deriving DecidableEq, Repr

/-- Who steps: a thread runs on, or an asynchronous cancellation reaches it. -/
inductive Choice (T : ℕ)
  | run (t : Fin T)
  | die (t : Fin T)
  deriving DecidableEq, Repr

/-- `strstr(haystack, needle) != NULL`. -/
def strstr (haystack needle : List UInt8) : Bool :=
  needle <:+: haystack.takeWhile fun b => b ≠ 0

variable {T : ℕ}

def State.setThread (s : State T) (t : Fin T) (th : Thread) : State T :=
  { s with thread := Function.update s.thread t th }

/-- The thread goes on elsewhere. -/
def State.goto (s : State T) (t : Fin T) (pc : Pc) : State T :=
  s.setThread t { s.thread t with pc := pc }

/-- `pthread_cancel`. -/
def State.request (s : State T) (t : Fin T) : State T :=
  s.setThread t { s.thread t with cancelRequested := true }

/-- `read(file, readingBuffer[i], BUFFSIZE)`.
SOURCE: cw08/zad1/main.c:91 -/
def State.readRecord (s : State T) (file : List UInt8) (t : Fin T) (i : ℕ) : State T :=
  let (data, f) := ByteFile.read { bytes := file, offset := s.offset } BUFFSIZE
  let th := s.thread t
  let old := th.readingBuffer i
  let buffer : Buffer :=
    if data.isEmpty then old
    else { bytes := data ++ old.bytes.drop data.length, record := some (s.offset / BUFFSIZE) }
  { s.setThread t { th with readingBuffer := Function.update th.readingBuffer i buffer,
                            charsReaded := data.length } with offset := f.offset }

/-- One call of `pthread_cancel` of a loop over all threads but the thread itself. -/
def State.cancelOther (s : State T) (t : Fin T) (j : Fin T) : State T :=
  if j ≠ t then s.request j else s

/-- One step of `run`; `none` while the thread waits for the mutex or has ended.
SOURCE: cw08/zad1/main.c:61-139 -/
def run (c : Setting T) (s : State T) (t : Fin T) : Option (Option (Report T) × State T) :=
  let th := s.thread t
  match th.pc with
  | .lock =>
    if s.mutex = none then some (none, { s.goto t (.read 0) with mutex := some t }) else none
  | .read i =>
    if i < c.recordsNo then
      -- `read` is a cancellation point
      if c.version = .two ∧ th.cancelRequested then some (none, s.goto t .cancelled)
      else some (none, (s.readRecord c.file t i).goto t (.read (i + 1)))
    else some (none, s.goto t (if c.version = .one then .testEof else .unlock))
  | .testEof => some (none, s.goto t (if th.charsReaded = 0 then .cancelEof 0 else .unlock))
  | .cancelEof j =>
    if h : j < T then some (none, (s.cancelOther t ⟨j, h⟩).goto t (.cancelEof (j + 1)))
    else some (none, s.goto t .unlockEof)
  | .unlockEof => some (none, { s.goto t .returned with mutex := none })
  | .unlock =>
    some (none,
      { s.goto t (if c.version = .two then .pause else .search 0) with mutex := none })
  | .pause => some (none, s.goto t (if th.cancelRequested then .cancelled else .search 0))
  | .search i =>
    if i < c.recordsNo then
      some (none, s.goto t
        (if strstr (th.readingBuffer i).bytes c.word then .print i else .search (i + 1)))
    else some (none, s.goto t (.loopEnd true))
  | .print i =>
    some (some ⟨t, th.readingBuffer i⟩,
      s.goto t (if c.version = .three then .search (i + 1) else .cancel 0))
  | .cancel j =>
    if h : j < T then some (none, (s.cancelOther t ⟨j, h⟩).goto t (.cancel (j + 1)))
    else some (none, s.goto t (.loopEnd false))
  | .loopEnd keepGoing =>
    some (none, s.goto t
      (if c.version = .three then .returned else if keepGoing then .lock else .returned))
  | .returned | .cancelled => none

/-- An asynchronous cancellation may reach a thread anywhere, and a deferred one may do so in
`printf`. -/
def mayDie (c : Setting T) (th : Thread) : Bool :=
  th.cancelRequested &&
    match c.version, th.pc with
    | .one, pc => !pc.ended
    | .two, .print _ => true
    | _, _ => false

/-- One step of the threads, with the report it prints. -/
def next (c : Setting T) (s : State T) : Choice T → Option (Option (Report T) × State T)
  | .run t => run c s t
  | .die t => if mayDie c (s.thread t) then some (none, s.goto t .cancelled) else none

/-- The threads when `START` has become `0`: every buffer is cleared.
SOURCE: cw08/zad1/main.c:42-50, cw08/zad1/main.c:77-86 -/
def start (c : Setting T) : State T where
  offset := 0
  mutex := none
  thread t :=
    { pc := .lock
      readingBuffer := fun _ => { bytes := List.replicate BUFFSIZE 0, record := none }
      charsReaded := c.charsReaded t
      cancelRequested := false }

/-- The program. -/
def program (c : Setting T) : Machine (State T) (Choice T) (Option (Report T)) where
  init s := s = start c
  next := next c

/-- All threads have ended, so `main` is through its joins. -/
def State.ended (s : State T) : Prop :=
  ∀ t, (s.thread t).pc.ended = true

/-- The record of the file with a number. -/
def recordAt (file : List UInt8) (r : ℕ) : List UInt8 :=
  (file.drop (r * BUFFSIZE)).take BUFFSIZE

/-- The number of whole records of the file. -/
def Setting.records (c : Setting T) : ℕ :=
  c.file.length / BUFFSIZE

/-- The word occurs in the record. -/
def Setting.Contains (c : Setting T) (r : ℕ) : Prop :=
  c.word <:+: recordAt c.file r

/-- The word occurs in the record where `strstr` looks for it: before the first zero byte. -/
def Setting.Visible (c : Setting T) (r : ℕ) : Prop :=
  strstr (recordAt c.file r) c.word = true

instance (c : Setting T) (r : ℕ) : Decidable (c.Contains r) :=
  inferInstanceAs (Decidable (_ <:+: _))

instance (c : Setting T) (r : ℕ) : Decidable (c.Visible r) :=
  inferInstanceAs (Decidable (_ = true))

/-- The file is made of whole records. -/
def Setting.Whole (c : Setting T) : Prop :=
  BUFFSIZE ∣ c.file.length

end SystemyOperacyjne.WordSearch
