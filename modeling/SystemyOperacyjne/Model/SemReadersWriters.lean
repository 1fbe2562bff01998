import Mathlib.Data.Int.Notation
import Mathlib.Logic.Function.Basic
import SystemyOperacyjne.Library.Transition
import SystemyOperacyjne.Model.Semaphore

/-!
# Readers and writers with three semaphores

The threads of `cw09/zad1b/main.c`: any number of readers in `rFunc` and of writers in
`wFunc`, over the shared counters, the shared table and the semaphores `semWait`,
`semWriter` and `semCheck`. A thread is its program point and its loop variables; one
step of a thread is one access to a semaphore, a counter or the table, and a thread at
`sem_wait` has no step while the value is `0`. `printf`, `sleep` and `usleep` touch nothing
that is shared and are part of the step before them.
-/

set_option autoImplicit false

namespace SystemyOperacyjne.SemReadersWriters

open Library

/-- `#define tableSize 100`. -/
def tableSize : ℕ := 100

/-- The program points of `rFunc`, in the order of the text. -/
inductive RPc
  | waitCheck  -- `sem_wait(&semCheck)` at the top of the loop
  | incReaders  -- `readers++`
  | postCheck  -- `sem_post(&semCheck)` before the scan
  | scan  -- the loop over the table
  | waitCheckExit  -- `sem_wait(&semCheck)` after the scan
  | decReaders  -- `readers--`
  | testReaders  -- `readers==0`
  | testWriters  -- `writers !=0`, evaluated only when `readers==0` held
  | postWait  -- `sem_post(&semWait)`
  | postCheckExit  -- `sem_post(&semCheck)` in the `else` branch
  deriving DecidableEq, Repr

/-- The program points of `wFunc`, in the order of the text. -/
inductive WPc
  | waitWriter  -- `sem_wait(&semWriter)` at the top of the loop
  | waitCheck  -- `sem_wait(&semCheck)`
  | incWriters  -- `writers++`
  | testReaders  -- `readers>0`
  | releaseCheck  -- `sem_post(&semCheck)` inside the `if`
  | waitWait  -- `sem_wait(&semWait)`
  | randAmount  -- `amount=((rand()%tableSize/10)+1)`
  | change  -- the loop that changes the table
  | decWriters  -- `writers--`
  | postCheck  -- `sem_post(&semCheck)` after the loop
  | postWriter  -- `sem_post(&semWriter)`
  deriving DecidableEq, Repr

/-- A reader thread: program point, `i` and `count`. -/
structure RThread where
  pc : RPc
  i : ℕ
  count : ℕ
  deriving DecidableEq, Repr

/-- A writer thread: program point, `i` and `amount`. -/
structure WThread where
  pc : WPc
  i : ℕ
  amount : ℕ
  deriving DecidableEq, Repr

/-- The shared memory. -/
structure Shared where
  semWait : ℕ
  semWriter : ℕ
  semCheck : ℕ
  readers : ℤ
  writers : ℤ
  table : Fin tableSize → ℤ

/-- One step of a reader with divisor `div`; `none` while it is blocked.
SOURCE: cw09/zad1b/main.c:72-103 -/
def rFunc (div : ℤ) (m : Shared) (t : RThread) : Option (Shared × RThread) :=
  match t.pc with
  | .waitCheck =>
    (Semaphore.wait m.semCheck).map fun v =>
      ({ m with semCheck := v }, { t with pc := .incReaders })
  | .incReaders => some ({ m with readers := m.readers + 1 }, { t with pc := .postCheck })
  | .postCheck =>
    some ({ m with semCheck := Semaphore.post m.semCheck }, { pc := .scan, i := 0, count := 0 })
  | .scan =>
    if h : t.i < tableSize then
      -- C's `%` truncates towards zero, as `Int.tmod` does
      let count := if (m.table ⟨t.i, h⟩).tmod div = 0 then t.count + 1 else t.count
      some (m, { t with i := t.i + 1, count := count })
    else some (m, { t with pc := .waitCheckExit })
  | .waitCheckExit =>
    (Semaphore.wait m.semCheck).map fun v =>
      ({ m with semCheck := v }, { t with pc := .decReaders })
  | .decReaders => some ({ m with readers := m.readers - 1 }, { t with pc := .testReaders })
  | .testReaders =>
    some (m, { t with pc := if m.readers = 0 then .testWriters else .postCheckExit })
  | .testWriters =>
    some (m, { t with pc := if m.writers ≠ 0 then .postWait else .postCheckExit })
  | .postWait =>
    some ({ m with semWait := Semaphore.post m.semWait }, { t with pc := .waitCheck })
  | .postCheckExit =>
    some ({ m with semCheck := Semaphore.post m.semCheck }, { t with pc := .waitCheck })

/-- The results of `rand()` a step of a writer uses. -/
structure Rand where
  first : ℕ
  second : ℕ
  deriving DecidableEq, Repr

/-- One step of a writer; `none` while it is blocked.
SOURCE: cw09/zad1b/main.c:105-136 -/
def wFunc (rand : Rand) (m : Shared) (t : WThread) : Option (Shared × WThread) :=
  match t.pc with
  | .waitWriter =>
    (Semaphore.wait m.semWriter).map fun v =>
      ({ m with semWriter := v }, { t with pc := .waitCheck })
  | .waitCheck =>
    (Semaphore.wait m.semCheck).map fun v =>
      ({ m with semCheck := v }, { t with pc := .incWriters })
  | .incWriters => some ({ m with writers := m.writers + 1 }, { t with pc := .testReaders })
  | .testReaders =>
    some (m, { t with pc := if m.readers > 0 then .releaseCheck else .randAmount })
  | .releaseCheck =>
    some ({ m with semCheck := Semaphore.post m.semCheck }, { t with pc := .waitWait })
  | .waitWait =>
    (Semaphore.wait m.semWait).map fun v =>
      ({ m with semWait := v }, { t with pc := .randAmount })
  | .randAmount =>
    some (m, { pc := .change, i := 0, amount := rand.first % tableSize / 10 + 1 })
  | .change =>
    if t.i < t.amount then
      let k : Fin tableSize := ⟨rand.first % tableSize, Nat.mod_lt _ (by decide)⟩
      let random : ℤ := (rand.second % 999 + 1 : ℕ)
      some ({ m with table := Function.update m.table k random }, { t with i := t.i + 1 })
    else some (m, { t with pc := .decWriters })
  | .decWriters => some ({ m with writers := m.writers - 1 }, { t with pc := .postCheck })
  | .postCheck =>
    some ({ m with semCheck := Semaphore.post m.semCheck }, { t with pc := .postWriter })
  | .postWriter =>
    some ({ m with semWriter := Semaphore.post m.semWriter }, { t with pc := .waitWriter })

/-- The whole program: the shared memory and every thread. -/
structure State (R W : Type) where
  mem : Shared
  reader : R → RThread
  writer : W → WThread

/-- Which thread is to step; a writer's step uses up to two results of `rand()`. -/
inductive Choice (R W : Type)
  | reader (r : R)
  | writer (w : W) (rand : Rand)

/-- Which thread has stepped, and from which program point. -/
inductive Action (R W : Type)
  | reader (r : R) (pc : RPc)
  | writer (w : W) (pc : WPc) (rand : Rand)

variable {R W : Type} [DecidableEq R] [DecidableEq W]

/-- Reader `r` has stepped. -/
def State.setReader (s : State R W) (r : R) (m : Shared) (t : RThread) : State R W :=
  { s with mem := m, reader := Function.update s.reader r t }

/-- Writer `w` has stepped. -/
def State.setWriter (s : State R W) (w : W) (m : Shared) (t : WThread) : State R W :=
  { s with mem := m, writer := Function.update s.writer w t }

/-- One step of the program, with reader `r`'s divisor `div r`. -/
def next (div : R → ℤ) (s : State R W) : Choice R W → Option (Action R W × State R W)
  | .reader r =>
    (rFunc (div r) s.mem (s.reader r)).map fun (m, t) =>
      (.reader r (s.reader r).pc, s.setReader r m t)
  | .writer w rand =>
    (wFunc rand s.mem (s.writer w)).map fun (m, t) =>
      (.writer w (s.writer w).pc rand, s.setWriter w m t)

/-- Every thread is at the top of its loop and nobody holds anything. This is also how
`main` starts: the `sem_init` values, both counters `0`, and a table that `randTable` may
have filled with anything.
SOURCE: cw09/zad1b/main.c:16-18, cw09/zad1b/main.c:46-54 -/
structure Idle (s : State R W) : Prop where
  semWait : s.mem.semWait = 0
  semWriter : s.mem.semWriter = 1
  semCheck : s.mem.semCheck = 1
  readers : s.mem.readers = 0
  writers : s.mem.writers = 0
  reader : ∀ r, (s.reader r).pc = .waitCheck
  writer : ∀ w, (s.writer w).pc = .waitWriter

/-- An idle state, with a table of zeros. -/
def idleState (R W : Type) : State R W where
  mem :=
    { semWait := 0, semWriter := 1, semCheck := 1, readers := 0, writers := 0, table := fun _ => 0 }
  reader _ := { pc := .waitCheck, i := 0, count := 0 }
  writer _ := { pc := .waitWriter, i := 0, amount := 0 }

omit [DecidableEq R] [DecidableEq W] in
/-- The state before the first reader and writer. -/
theorem idle_idleState (R W : Type) : Idle (idleState R W) :=
  ⟨rfl, rfl, rfl, rfl, rfl, fun _ => rfl, fun _ => rfl⟩

/-- The program: any number of readers and writers, in any order of steps. -/
def program (div : R → ℤ) : Machine (State R W) (Choice R W) (Action R W) where
  init := Idle
  next := next div

/-- **What a step is**: one thread that is not blocked takes one. -/
theorem step_cases {div : R → ℤ} {s s' : State R W} {a : Action R W}
    (h : (program div).system.step s a s') :
    (∃ r m t, rFunc (div r) s.mem (s.reader r) = some (m, t) ∧
      a = .reader r (s.reader r).pc ∧ s' = s.setReader r m t) ∨
    (∃ w rand m t, wFunc rand s.mem (s.writer w) = some (m, t) ∧
      a = .writer w (s.writer w).pc rand ∧ s' = s.setWriter w m t) := by
  obtain ⟨c, h⟩ := h
  cases c with
  | reader r =>
    obtain ⟨⟨m, t⟩, hstep, heq⟩ := Option.map_eq_some_iff.mp h
    cases heq
    exact .inl ⟨r, m, t, hstep, rfl, rfl⟩
  | writer w rand =>
    obtain ⟨⟨m, t⟩, hstep, heq⟩ := Option.map_eq_some_iff.mp h
    cases heq
    exact .inr ⟨w, rand, m, t, hstep, rfl, rfl⟩

/-- A reader that is not blocked may step. -/
theorem step_reader {div : R → ℤ} {s : State R W} {r : R} {m : Shared} {t : RThread}
    (h : rFunc (div r) s.mem (s.reader r) = some (m, t)) :
    (program div).system.step s (.reader r (s.reader r).pc) (s.setReader r m t) :=
  ⟨.reader r, by simp [program, next, h]⟩

/-- A writer that is not blocked may step. -/
theorem step_writer {div : R → ℤ} {s : State R W} {w : W} {rand : Rand} {m : Shared} {t : WThread}
    (h : wFunc rand s.mem (s.writer w) = some (m, t)) :
    (program div).system.step s (.writer w (s.writer w).pc rand) (s.setWriter w m t) :=
  ⟨.writer w rand, by simp [program, next, h]⟩

/-- A reader between its `readers++` and its `readers--`. -/
def RThread.Reading (t : RThread) : Prop :=
  t.pc = .postCheck ∨ t.pc = .scan ∨ t.pc = .waitCheckExit ∨ t.pc = .decReaders

instance (t : RThread) : Decidable t.Reading :=
  inferInstanceAs (Decidable (_ ∨ _))

/-- A writer in the loop that modifies the table. -/
def WThread.Changing (t : WThread) : Prop :=
  t.pc = .change

instance (t : WThread) : Decidable t.Changing :=
  inferInstanceAs (Decidable (_ = _))

end SystemyOperacyjne.SemReadersWriters
