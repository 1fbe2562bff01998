import Mathlib.Data.Int.Notation
import Mathlib.Logic.Function.Basic
import SystemyOperacyjne.Library.Transition

/-!
# Readers and writers with a mutex and a condition variable

The threads of `cw09/zad1a/main.c`: any number of readers in `rFunc` and of writers in
`wFunc`, over the shared counters and table, one mutex and one condition variable. A
thread at `pthread_mutex_lock` has no step while the mutex is locked. `pthread_cond_wait`
gives the mutex back and puts the thread to sleep in one step; a broadcast wakes every
sleeping thread, a spurious wake-up wakes one, and a woken thread has to lock the mutex
again before it goes on. `printf` and `sleep` touch nothing that is shared and are part of
the step before them.
-/

set_option autoImplicit false

namespace SystemyOperacyjne.CondReadersWriters

open Library

/-- `#define tableSize 100`. -/
def tableSize : ℕ := 100

/-- The program points of `rFunc`, in the order of the text. -/
inductive RPc
  | lock  -- `pthread_mutex_lock` at the top of the loop
  | testQueue  -- `writersInQueue!=0`
  | condWait  -- the call of `pthread_cond_wait`
  | asleep  -- inside `pthread_cond_wait`, not woken
  | woken  -- inside `pthread_cond_wait`, woken, without the mutex
  | incReaders  -- `readers++`
  | unlock  -- `pthread_mutex_unlock` before the scan
  | scan  -- the loop over the table
  | lockExit  -- `pthread_mutex_lock` after the scan
  | decReaders  -- `readers--`
  | broadcast  -- `pthread_cond_broadcast`
  | unlockExit  -- `pthread_mutex_unlock` at the end of the loop
  deriving DecidableEq, Repr

/-- The program points of `wFunc`, in the order of the text. -/
inductive WPc
  | lock  -- `pthread_mutex_lock` at the top of the loop
  | incQueue  -- `writersInQueue++`
  | testReaders  -- `readers` in `readers || writers`
  | testWriters  -- `writers`, evaluated only when `readers` was `0`
  | condWait  -- the call of `pthread_cond_wait`
  | asleep  -- inside `pthread_cond_wait`, not woken
  | woken  -- inside `pthread_cond_wait`, woken, without the mutex
  | incWriters  -- `writers++`
  | unlock  -- `pthread_mutex_unlock` before the changes
  | randAmount  -- `amount=((rand()%tableSize/10)+1)`
  | change  -- the loop that changes the table
  | lockExit  -- `pthread_mutex_lock` after the changes
  | decWriters  -- `writers--`
  | decQueue  -- `writersInQueue--`
  | broadcast  -- `pthread_cond_broadcast`
  | unlockExit  -- `pthread_mutex_unlock` at the end of the loop
  deriving DecidableEq, Repr

/-- A reader thread: program point, `i` and `count`. -/
structure RThread where
  pc : RPc
  i : ℕ
  count : ℕ
  deriving DecidableEq, Repr

/-- A writer thread: program point, `i` and `amount`. -/
structure WThread where
  pc : WPc
  i : ℕ
  amount : ℕ
  deriving DecidableEq, Repr

/-- The shared memory; `mutex` is whether the mutex is locked. -/
structure Shared where
  mutex : Bool
  readers : ℤ
  writers : ℤ
  writersInQueue : ℤ
  table : Fin tableSize → ℤ

/-- What one step of a thread does: to the shared memory, to the thread, and whether it is
a `pthread_cond_broadcast`. -/
structure Outcome (T : Type) where
  mem : Shared
  thread : T
  broadcast : Bool := false

/-- `pthread_mutex_lock`: `none` while the caller is blocked. -/
def Shared.lock (m : Shared) : Option Shared :=
  if m.mutex then none else some { m with mutex := true }

/-- `pthread_mutex_unlock`. -/
def Shared.unlock (m : Shared) : Shared :=
  { m with mutex := false }

/-- A lock returns exactly by taking the free mutex. -/
theorem Shared.lock_eq_some {m m' : Shared} :
    m.lock = some m' ↔ m.mutex = false ∧ m' = { m with mutex := true } := by
  cases h : m.mutex <;> simp [Shared.lock, h, eq_comm]

/-- One step of a reader with divisor `div`; `none` while it is blocked or asleep.
SOURCE: cw09/zad1a/main.c:68-100 -/
def rFunc (div : ℤ) (m : Shared) (t : RThread) : Option (Outcome RThread) :=
  match t.pc with
  | .lock => m.lock.map fun m => { mem := m, thread := { t with pc := .testQueue } }
  | .testQueue =>
    some { mem := m, thread :=
      { t with pc := if m.writersInQueue ≠ 0 then .condWait else .incReaders } }
  | .condWait => some { mem := m.unlock, thread := { t with pc := .asleep } }
  | .asleep => none
  | .woken => m.lock.map fun m => { mem := m, thread := { t with pc := .testQueue } }
  | .incReaders =>
    some { mem := { m with readers := m.readers + 1 }, thread := { t with pc := .unlock } }
  | .unlock => some { mem := m.unlock, thread := { pc := .scan, i := 0, count := 0 } }
  | .scan =>
    if h : t.i < tableSize then
      -- C's `%` truncates towards zero, as `Int.tmod` does
      let count := if (m.table ⟨t.i, h⟩).tmod div = 0 then t.count + 1 else t.count
      some { mem := m, thread := { t with i := t.i + 1, count := count } }
    else some { mem := m, thread := { t with pc := .lockExit } }
  | .lockExit => m.lock.map fun m => { mem := m, thread := { t with pc := .decReaders } }
  | .decReaders =>
    some { mem := { m with readers := m.readers - 1 }, thread := { t with pc := .broadcast } }
  | .broadcast => some { mem := m, thread := { t with pc := .unlockExit }, broadcast := true }
  | .unlockExit => some { mem := m.unlock, thread := { t with pc := .lock } }

/-- The results of `rand()` a step of a writer uses. -/
structure Rand where
  first : ℕ
  second : ℕ
  deriving DecidableEq, Repr

/-- One step of a writer; `none` while it is blocked or asleep.
SOURCE: cw09/zad1a/main.c:102-131 -/
def wFunc (rand : Rand) (m : Shared) (t : WThread) : Option (Outcome WThread) :=
  match t.pc with
  | .lock => m.lock.map fun m => { mem := m, thread := { t with pc := .incQueue } }
  | .incQueue =>
    some { mem := { m with writersInQueue := m.writersInQueue + 1 },
           thread := { t with pc := .testReaders } }
  | .testReaders =>
    some { mem := m, thread :=
      { t with pc := if m.readers ≠ 0 then .condWait else .testWriters } }
  | .testWriters =>
    some { mem := m, thread :=
      { t with pc := if m.writers ≠ 0 then .condWait else .incWriters } }
  | .condWait => some { mem := m.unlock, thread := { t with pc := .asleep } }
  | .asleep => none
  | .woken => m.lock.map fun m => { mem := m, thread := { t with pc := .testReaders } }
  | .incWriters =>
    some { mem := { m with writers := m.writers + 1 }, thread := { t with pc := .unlock } }
  | .unlock => some { mem := m.unlock, thread := { t with pc := .randAmount } }
  | .randAmount =>
    some { mem := m, thread :=
      { pc := .change, i := 0, amount := rand.first % tableSize / 10 + 1 } }
  | .change =>
    if t.i < t.amount then
      let k : Fin tableSize := ⟨rand.first % tableSize, Nat.mod_lt _ (by decide)⟩
      let random : ℤ := (rand.second % 999 + 1 : ℕ)
      some { mem := { m with table := Function.update m.table k random },
             thread := { t with i := t.i + 1 } }
    else some { mem := m, thread := { t with pc := .lockExit } }
  | .lockExit => m.lock.map fun m => { mem := m, thread := { t with pc := .decWriters } }
  | .decWriters =>
    some { mem := { m with writers := m.writers - 1 }, thread := { t with pc := .decQueue } }
  | .decQueue =>
    some { mem := { m with writersInQueue := m.writersInQueue - 1 },
           thread := { t with pc := .broadcast } }
  | .broadcast => some { mem := m, thread := { t with pc := .unlockExit }, broadcast := true }
  | .unlockExit => some { mem := m.unlock, thread := { t with pc := .lock } }

/-- A reader is woken if it is asleep. -/
def RThread.wake (t : RThread) : RThread :=
  { t with pc := if t.pc = .asleep then .woken else t.pc }

/-- A writer is woken if it is asleep. -/
def WThread.wake (t : WThread) : WThread :=
  { t with pc := if t.pc = .asleep then .woken else t.pc }

/-- The whole program: the shared memory and every thread. -/
structure State (R W : Type) where
  mem : Shared
  reader : R → RThread
  writer : W → WThread

/-- What the scheduler may let happen: a step of a thread, or a spurious wake-up. -/
inductive Choice (R W : Type)
  | reader (r : R)
  | writer (w : W) (rand : Rand)
  | spuriousReader (r : R)
  | spuriousWriter (w : W)

/-- What has happened: a step of a thread from some program point, or a spurious wake-up. -/
inductive Action (R W : Type)
  | reader (r : R) (pc : RPc)
  | writer (w : W) (pc : WPc) (rand : Rand)
  | spuriousReader (r : R)
  | spuriousWriter (w : W)

/-- A wake-up that no broadcast asked for. -/
def Action.Spurious {R W : Type} : Action R W → Prop
  | .reader _ _ | .writer _ _ _ => False
  | .spuriousReader _ | .spuriousWriter _ => True

variable {R W : Type} [DecidableEq R] [DecidableEq W]

/-- Reader `r` has stepped. -/
def State.setReader (s : State R W) (r : R) (m : Shared) (t : RThread) : State R W :=
  { s with mem := m, reader := Function.update s.reader r t }

/-- Writer `w` has stepped. -/
def State.setWriter (s : State R W) (w : W) (m : Shared) (t : WThread) : State R W :=
  { s with mem := m, writer := Function.update s.writer w t }

/-- `pthread_cond_broadcast`: every sleeping thread is woken. -/
def State.wakeAll (s : State R W) : State R W :=
  { s with reader := fun r => (s.reader r).wake, writer := fun w => (s.writer w).wake }

/-- A broadcast happens if the step was one. -/
def State.signalled (s : State R W) (broadcast : Bool) : State R W :=
  if broadcast then s.wakeAll else s

/-- One step of the program, with reader `r`'s divisor `div r`. -/
def next (div : R → ℤ) (s : State R W) : Choice R W → Option (Action R W × State R W)
  | .reader r =>
    (rFunc (div r) s.mem (s.reader r)).map fun o =>
      (.reader r (s.reader r).pc, (s.setReader r o.mem o.thread).signalled o.broadcast)
  | .writer w rand =>
    (wFunc rand s.mem (s.writer w)).map fun o =>
      (.writer w (s.writer w).pc rand, (s.setWriter w o.mem o.thread).signalled o.broadcast)
  | .spuriousReader r =>
    if (s.reader r).pc = .asleep then
      some (.spuriousReader r, s.setReader r s.mem (s.reader r).wake)
    else none
  | .spuriousWriter w =>
    if (s.writer w).pc = .asleep then
      some (.spuriousWriter w, s.setWriter w s.mem (s.writer w).wake)
    else none

/-- `main` before the threads run: the mutex free, the counters `0`, a table `randTable`
may have filled with anything, every thread at the top of its loop.
SOURCE: cw09/zad1a/main.c:17-25, cw09/zad1a/main.c:46-50 -/
structure Start (s : State R W) : Prop where
  mutex : s.mem.mutex = false
  readers : s.mem.readers = 0
  writers : s.mem.writers = 0
  writersInQueue : s.mem.writersInQueue = 0
  reader : ∀ r, (s.reader r).pc = .lock
  writer : ∀ w, (s.writer w).pc = .lock

/-- A start state, with a table of zeros. -/
def startState (R W : Type) : State R W where
  mem := { mutex := false, readers := 0, writers := 0, writersInQueue := 0, table := fun _ => 0 }
  reader _ := { pc := .lock, i := 0, count := 0 }
  writer _ := { pc := .lock, i := 0, amount := 0 }

omit [DecidableEq R] [DecidableEq W] in
/-- The state the threads start in. -/
theorem start_startState (R W : Type) : Start (startState R W) :=
  ⟨rfl, rfl, rfl, rfl, fun _ => rfl, fun _ => rfl⟩

/-- The program: any number of readers and writers, in any order of steps. -/
def program (div : R → ℤ) : Machine (State R W) (Choice R W) (Action R W) where
  init := Start
  next := next div

/-- **What a step is**: one thread that is neither blocked nor asleep takes one, or one
sleeping thread wakes up spuriously. -/
theorem step_cases {div : R → ℤ} {s s' : State R W} {a : Action R W}
    (h : (program div).system.step s a s') :
    (∃ r o, rFunc (div r) s.mem (s.reader r) = some o ∧ a = .reader r (s.reader r).pc ∧
      s' = (s.setReader r o.mem o.thread).signalled o.broadcast) ∨
    (∃ w rand o, wFunc rand s.mem (s.writer w) = some o ∧ a = .writer w (s.writer w).pc rand ∧
      s' = (s.setWriter w o.mem o.thread).signalled o.broadcast) ∨
    (∃ r, (s.reader r).pc = .asleep ∧ a = .spuriousReader r ∧
      s' = s.setReader r s.mem (s.reader r).wake) ∨
    (∃ w, (s.writer w).pc = .asleep ∧ a = .spuriousWriter w ∧
      s' = s.setWriter w s.mem (s.writer w).wake) := by
  obtain ⟨c, h⟩ := h
  cases c with
  | reader r =>
    obtain ⟨o, hstep, heq⟩ := Option.map_eq_some_iff.mp h
    cases heq
    exact .inl ⟨r, o, hstep, rfl, rfl⟩
  | writer w rand =>
    obtain ⟨o, hstep, heq⟩ := Option.map_eq_some_iff.mp h
    cases heq
    exact .inr (.inl ⟨w, rand, o, hstep, rfl, rfl⟩)
  | spuriousReader r =>
    simp only [program, next, Option.ite_none_right_eq_some] at h
    obtain ⟨hpc, heq⟩ := h
    cases heq
    exact .inr (.inr (.inl ⟨r, hpc, rfl, rfl⟩))
  | spuriousWriter w =>
    simp only [program, next, Option.ite_none_right_eq_some] at h
    obtain ⟨hpc, heq⟩ := h
    cases heq
    exact .inr (.inr (.inr ⟨w, hpc, rfl, rfl⟩))

/-- A reader between its `readers++` and its `readers--`. -/
def RThread.Reading (t : RThread) : Prop :=
  t.pc = .unlock ∨ t.pc = .scan ∨ t.pc = .lockExit ∨ t.pc = .decReaders

instance (t : RThread) : Decidable t.Reading :=
  inferInstanceAs (Decidable (_ ∨ _))

/-- A writer in the loop that modifies the table. -/
def WThread.Changing (t : WThread) : Prop :=
  t.pc = .change

instance (t : WThread) : Decidable t.Changing :=
  inferInstanceAs (Decidable (_ = _))

/-- A writer between its `writersInQueue++` and its `writersInQueue--`. -/
def WThread.Queued (t : WThread) : Prop :=
  t.pc ≠ .lock ∧ t.pc ≠ .incQueue ∧ t.pc ≠ .broadcast ∧ t.pc ≠ .unlockExit

instance (t : WThread) : Decidable t.Queued :=
  inferInstanceAs (Decidable (_ ∧ _))

end SystemyOperacyjne.CondReadersWriters
