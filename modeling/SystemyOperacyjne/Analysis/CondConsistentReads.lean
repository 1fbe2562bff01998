import SystemyOperacyjne.Analysis.CondReadersWritersInvariant
import SystemyOperacyjne.Library.Sessions

/-!
# Consistent reads in the condition-variable version

The threads of `cw09/zad1a/main.c` share their table as those of the semaphore version do,
for another reason: a writer that chooses how often it will write is the only one counted in
`writers` and no reader is counted in `readers`, and a reader that performs `readers++` has
found `writersInQueue` at `0`. Sleeping and waking up are no steps at the table.
-/

set_option autoImplicit false

namespace SystemyOperacyjne.CondReadersWriters

open Library

/-- The place of the first write is in the table. -/
theorem first_mod_lt (rand : Rand) : rand.first % tableSize < tableSize :=
  Nat.mod_lt _ (by decide)

/-- What a step is to the other threads: `amount=…` opens a session, `writers--` closes it,
and a reader starts with `readers++`. -/
def access {R W : Type} : Action R W → Option (Access R W (Fin tableSize) ℤ)
  | .writer w .randAmount rand => some (.opens w (rand.first % tableSize / 10 + 1))
  | .writer w .change rand =>
    some (.turn w ⟨rand.first % tableSize, first_mod_lt rand⟩
      (rand.second % 999 + 1 : ℕ))
  | .writer w .decWriters _ => some (.closes w)
  | .reader r .incReaders => some (.starts r)
  | _ => none

/-- Where a reader stands. -/
def RThread.view (t : RThread) : ReaderPlace :=
  match t.pc with
  | .unlock => .ready
  | .scan => .scanning t.i t.count
  | .lockExit | .decReaders => .scanned t.count
  | _ => .away

/-- Where a writer stands. -/
def WThread.view (t : WThread) : WriterPlace :=
  match t.pc with
  | .change => .writing t.i t.amount
  | .lockExit | .decWriters => .written
  | _ => .away

/-- The table, and where everybody stands. -/
def State.view {R W : Type} (s : State R W) : Sharing R W ℤ tableSize where
  table := s.mem.table
  reader r := (s.reader r).view
  writer w := (s.writer w).view

/-- A reader that is at the table is between its `readers++` and its `readers--`. -/
theorem RThread.reading_of_view {t : RThread} (h : t.view ≠ .away) : t.Reading := by
  unfold RThread.Reading
  cases hpc : t.pc
  case unlock | scan | lockExit | decReaders => simp
  all_goals simp [RThread.view, hpc] at h

/-- A writer in its session is counted in `writers`. -/
theorem WThread.counted_of_view {t : WThread} (h : t.view ≠ .away) : t.Counted := by
  unfold WThread.Counted
  cases hpc : t.pc
  case change | lockExit | decWriters => simp [WPc.phase]
  all_goals simp [WThread.view, hpc] at h

/-- A writer in its session is in the queue. -/
theorem WThread.queued_of_view {t : WThread} (h : t.view ≠ .away) : t.Queued := by
  unfold WThread.Queued
  cases hpc : t.pc
  case change | lockExit | decWriters => simp
  all_goals simp [WThread.view, hpc] at h

/-- A reader that wakes up has read what it had read. -/
theorem RThread.view_wake (t : RThread) : t.wake.view = t.view := by
  cases hpc : t.pc <;> simp [RThread.wake, RThread.view, hpc]

/-- A writer that wakes up has written what it had written. -/
theorem WThread.view_wake (t : WThread) : t.wake.view = t.view := by
  cases hpc : t.pc <;> simp [WThread.wake, WThread.view, hpc]

section Threads

variable {m : Shared}

/-- The mutex has nothing to do with the table. -/
theorem Shared.lock_table {m' : Shared} (h : m.lock = some m') : m'.table = m.table := by
  obtain ⟨-, rfl⟩ := Shared.lock_eq_some.mp h
  rfl

/-- Readers do not write. -/
theorem rFunc_table {div : ℤ} {t : RThread} {o : Outcome RThread} (h : rFunc div m t = some o) :
    o.mem.table = m.table := by
  cases hpc : t.pc
  all_goals simp only [rFunc, hpc, reduceCtorEq] at h
  case lock | woken | lockExit =>
    obtain ⟨v, hv, rfl⟩ := Option.map_eq_some_iff.mp h
    exact Shared.lock_table hv
  case scan =>
    split at h <;>
      · cases h
        rfl
  all_goals
    cases h
    rfl

/-- **What a reader's step is at the table**: a step of the scan, unless it is `readers++`. -/
theorem rFunc_view {div : ℤ} {t : RThread} {o : Outcome RThread} (h : rFunc div m t = some o)
    (hpc : t.pc ≠ .incReaders) :
    ReaderPlace.Step (fun x => x.tmod div = 0) m.table t.view o.thread.view := by
  cases hpc' : t.pc
  all_goals simp only [rFunc, hpc', reduceCtorEq] at h
  case incReaders => exact absurd hpc' hpc
  case lock | woken =>
    obtain ⟨v, -, rfl⟩ := Option.map_eq_some_iff.mp h
    exact .leaves _
  case testQueue =>
    split at h <;>
      · cases h
        exact .leaves _
  case unlock =>
    cases h
    simp only [RThread.view, hpc']
    exact .begins
  case scan =>
    split at h
    · next hlt =>
      cases h
      simp only [RThread.view, hpc']
      exact .looks hlt
    · next hend =>
      cases h
      simp only [RThread.view, hpc']
      exact .ends (Nat.not_lt.mp hend)
  case lockExit =>
    obtain ⟨v, -, rfl⟩ := Option.map_eq_some_iff.mp h
    simp only [RThread.view, hpc']
    exact .stays _
  all_goals
    cases h
    exact .leaves _

/-- After its `readers++` a reader is at the table. -/
theorem rFunc_starts {div : ℤ} {t : RThread} {o : Outcome RThread} (h : rFunc div m t = some o)
    (hpc : t.pc = .incReaders) : o.thread.view = .ready := by
  simp only [rFunc, hpc, Option.some.injEq] at h
  rw [← h]
  rfl

/-- A writer's step that is none at the table. -/
theorem wFunc_view {rand : Rand} {t : WThread} {o : Outcome WThread}
    (h : wFunc rand m t = some o) (hrand : t.pc ≠ .randAmount) (hchange : t.pc ≠ .change)
    (hdec : t.pc ≠ .decWriters) : o.mem.table = m.table ∧ o.thread.view = t.view := by
  cases hpc : t.pc
  all_goals simp only [wFunc, hpc, reduceCtorEq] at h
  case randAmount => exact absurd hpc hrand
  case change => exact absurd hpc hchange
  case decWriters => exact absurd hpc hdec
  case lock | woken | lockExit =>
    obtain ⟨v, hv, rfl⟩ := Option.map_eq_some_iff.mp h
    rw [Shared.lock_table hv]
    simp [WThread.view, hpc]
  case testReaders | testWriters =>
    split at h <;>
      · cases h
        simp [WThread.view, hpc]
  all_goals
    cases h
    simp [WThread.view, hpc, Shared.unlock]

end Threads

variable {R W : Type} [DecidableEq R] [DecidableEq W]

omit [DecidableEq R] [DecidableEq W] in
/-- A broadcast is no step at the table. -/
theorem view_signalled (s : State R W) (broadcast : Bool) :
    (s.signalled broadcast).view = s.view := by
  cases broadcast with
  | false => rfl
  | true =>
    simp [State.signalled, State.view, State.wakeAll, RThread.view_wake, WThread.view_wake]

omit [DecidableEq W] in
/-- What is seen after a step of a reader. -/
theorem view_setReader (s : State R W) (r : R) {m : Shared} {t : RThread}
    (htable : m.table = s.mem.table) :
    (s.setReader r m t).view =
      { s.view with reader := Function.update s.view.reader r t.view } := by
  have hreader : ∀ r', (Function.update s.reader r t r').view =
      Function.update s.view.reader r t.view r' := by
    intro r'
    by_cases heq : r' = r <;> simp [heq, State.view]
  simp [State.view, State.setReader, htable, hreader]

omit [DecidableEq R] in
/-- What is seen after a step of a writer. -/
theorem view_setWriter (s : State R W) (w : W) (m : Shared) (t : WThread) :
    (s.setWriter w m t).view =
      { s.view with
        table := m.table
        writer := Function.update s.view.writer w t.view } := by
  have hwriter : ∀ w', (Function.update s.writer w t w').view =
      Function.update s.view.writer w t.view w' := by
    intro w'
    by_cases heq : w' = w <;> simp [heq, State.view]
  simp [State.view, State.setWriter, hwriter]

variable [Fintype R] [Fintype W] {div : R → ℤ} {s : State R W}

/-- A reader's step is one at the table. -/
theorem view_reader (hI : Inv s) {r : R} {o : Outcome RThread}
    (h : rFunc (div r) s.mem (s.reader r) = some o) :
    Sharing.Step (fun r x => x.tmod (div r) = 0) s.view
      (access (.reader r (s.reader r).pc)) (s.setReader r o.mem o.thread).view := by
  rw [view_setReader s r (rFunc_table h)]
  by_cases hpc : (s.reader r).pc = .incReaders
  · rw [rFunc_starts h hpc, hpc]
    apply Sharing.Step.starts
    intro w
    by_contra hw
    exact hI.no_writer hpc w (WThread.queued_of_view hw)
  · have hnone : access (W := W) (.reader r (s.reader r).pc) = none := by
      cases hpc' : (s.reader r).pc
      case incReaders => exact absurd hpc' hpc
      all_goals rfl
    rw [hnone]
    exact .reads (rFunc_view h hpc)

/-- A writer's step is one at the table. The cases are the accesses. -/
theorem view_writer (hI : Inv s) {w : W} {rand : Rand} {o : Outcome WThread}
    (h : wFunc rand s.mem (s.writer w) = some o) :
    Sharing.Step (fun r x => x.tmod (div r) = 0) s.view
      (access (.writer w (s.writer w).pc rand)) (s.setWriter w o.mem o.thread).view := by
  rw [view_setWriter]
  cases hpc : (s.writer w).pc
  case randAmount =>
    have hcounted : (s.writer w).Counted := by
      right
      rw [hpc]
      rfl
    simp only [wFunc, hpc] at h
    cases h
    apply Sharing.Step.opens
    · intro r
      by_contra hr
      exact hI.no_reader hcounted r (RThread.reading_of_view hr)
    · intro w'
      by_contra hw'
      -- a writer inside its session would be `w`, which is not there yet
      have heq := hI.counted_unique (WThread.counted_of_view hw') hcounted
      rw [heq] at hw'
      simp [State.view, WThread.view, hpc] at hw'
  case change =>
    have hplace : s.view.writer w = .writing (s.writer w).i (s.writer w).amount := by
      simp [State.view, WThread.view, hpc]
    simp only [wFunc, hpc] at h
    split at h
    · next hlt =>
      cases h
      exact .writes _ _ hplace hlt
    · next hend =>
      cases h
      exact .written _ _ hplace hend
  case decWriters =>
    have hplace : s.view.writer w = .written := by
      simp [State.view, WThread.view, hpc]
    simp only [wFunc, hpc] at h
    cases h
    exact .closes hplace
  all_goals
    obtain ⟨htable, hview⟩ := wFunc_view h (by simp [hpc]) (by simp [hpc]) (by simp [hpc])
    rw [htable, hview, show (s.writer w).view = s.view.writer w from rfl,
      Function.update_eq_self]
    exact .stays _

/-- **The program simulates the shared table.** -/
theorem sharing_simulation (div : R → ℤ) :
    Simulation (program (W := W) div).system
      (sharing tableSize fun r x => x.tmod (div r) = 0) access id
      fun s t => Inv s ∧ s.view = t where
  init s hs := by
    refine ⟨s.view, ⟨?_, ?_⟩, inv_start hs, rfl⟩
    · intro r
      simp [State.view, RThread.view, hs.reader r]
    · intro w
      simp [State.view, WThread.view, hs.writer w]
  step s t a s' hR hstep := by
    obtain ⟨hI, rfl⟩ := hR
    have hI' := (inv_invariant div).step s a s' hI hstep
    have hmove : Sharing.Step (fun r x => x.tmod (div r) = 0) s.view (access a) s'.view := by
      rcases step_cases hstep with ⟨r, o, hr, rfl, rfl⟩ | ⟨w, rand, o, hw, rfl, rfl⟩ |
        ⟨r, -, rfl, rfl⟩ | ⟨w, -, rfl, rfl⟩
      · rw [view_signalled]
        exact view_reader hI hr
      · rw [view_signalled]
        exact view_writer hI hw
      · rw [view_setReader s r rfl, RThread.view_wake]
        exact .reads (.stays _)
      · rw [view_setWriter, WThread.view_wake, show (s.writer w).view = s.view.writer w from rfl,
          Function.update_eq_self]
        exact .stays _
    refine ⟨[access a], s'.view, .single hmove, ?_, hI', rfl⟩
    cases access a <;> rfl

/-- **The journal of a run.** -/
def recorded (l : List (Action R W)) : Journal R W (Fin tableSize) ℤ :=
  journal (l.filterMap access)

/-- **The table is serial along every run.** -/
theorem serial_run {s₀ : State R W} {l : List (Action R W)} (hinit : Start s₀)
    (hrun : (program div).system.Run s₀ l s) :
    s.view.Serial (fun r x => x.tmod (div r) = 0) s₀.mem.table (recorded l) :=
  serial_of_simulation (sharing_simulation div) hinit hrun

end SystemyOperacyjne.CondReadersWriters
