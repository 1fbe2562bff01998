import SystemyOperacyjne.Analysis.CondConsistentReads
import SystemyOperacyjne.Analysis.SemConsistentReads

/-!
# Consistent reads in both readers-writers programs

Both programs simulate the shared table, so that what `sharing_serial` says about its runs
holds of theirs: the table a reader reads, entry by entry, is the initial one with the complete
sessions of the writers that had left when the reader came.
-/

set_option autoImplicit false

namespace SystemyOperacyjne

open Library

section Programs

variable {R W : Type} [DecidableEq R] [DecidableEq W]

/-- The initial table with the complete sessions, in order, of the writers that had left their
section before the last `readers++` of reader `r`. -/
def SemReadersWriters.tableBefore (s₀ : SemReadersWriters.State R W)
    (l : List (SemReadersWriters.Action R W)) (r : R) : Fin SemReadersWriters.tableSize → ℤ :=
  replayAll s₀.mem.table ((SemReadersWriters.recorded l).before r)

/-- The initial table with the complete sessions, in order, of the writers that had left their
section before the last `readers++` of reader `r`. -/
def CondReadersWriters.tableBefore (s₀ : CondReadersWriters.State R W)
    (l : List (CondReadersWriters.Action R W)) (r : R) : Fin CondReadersWriters.tableSize → ℤ :=
  replayAll s₀.mem.table ((CondReadersWriters.recorded l).before r)

variable [Fintype R] [Fintype W]

/-- **Consistent reads**: along every run of either program, at every read of a scan the table
is the one the reader started with, and the count of a reader that has been through the table
(it has printed it on the way to the semaphore or the mutex) is the number of entries of that
table its divisor divides.
SOURCE: cw09/zad1a/main.c:68-131, cw09/zad1b/main.c:72-136 -/
theorem consistent_reads (div : R → ℤ) :
    (∀ (s₀ s : SemReadersWriters.State R W) (l : List (SemReadersWriters.Action R W)),
      SemReadersWriters.Idle s₀ → (SemReadersWriters.program div).system.Run s₀ l s → ∀ r,
        ((s.reader r).pc = .scan → s.mem.table = SemReadersWriters.tableBefore s₀ l r) ∧
        ((s.reader r).pc = .waitCheckExit → (s.reader r).count =
          (Finset.univ.filter fun i =>
            (SemReadersWriters.tableBefore s₀ l r i).tmod (div r) = 0).card)) ∧
    ∀ (s₀ s : CondReadersWriters.State R W) (l : List (CondReadersWriters.Action R W)),
      CondReadersWriters.Start s₀ → (CondReadersWriters.program div).system.Run s₀ l s → ∀ r,
        ((s.reader r).pc = .scan → s.mem.table = CondReadersWriters.tableBefore s₀ l r) ∧
        ((s.reader r).pc = .lockExit → (s.reader r).count =
          (Finset.univ.filter fun i =>
            (CondReadersWriters.tableBefore s₀ l r i).tmod (div r) = 0).card) := by
  constructor
  · intro s₀ s l hinit hrun r
    have hserial := SemReadersWriters.serial_run hinit hrun
    constructor
    · intro hpc
      apply hserial.seen
      simp [SemReadersWriters.State.view, SemReadersWriters.RThread.view, hpc]
    · intro hpc
      have hcounts := hserial.counts r
      simp only [SemReadersWriters.State.view, SemReadersWriters.RThread.view, hpc] at hcounts
      exact hcounts
  · intro s₀ s l hinit hrun r
    have hserial := CondReadersWriters.serial_run hinit hrun
    constructor
    · intro hpc
      apply hserial.seen
      simp [CondReadersWriters.State.view, CondReadersWriters.RThread.view, hpc]
    · intro hpc
      have hcounts := hserial.counts r
      simp only [CondReadersWriters.State.view, CondReadersWriters.RThread.view, hpc] at hcounts
      exact hcounts

end Programs

/-- For the numerals of `Fin 1`. -/
local instance neZero_one : NeZero 1 := ⟨by decide⟩

/-- The semaphore version: a writer changes one entry, then a reader goes through the table. -/
def semSchedule : List (SemReadersWriters.Choice (Fin 1) (Fin 1)) :=
  List.replicate 10 (.writer 0 ⟨7, 3⟩) ++ List.replicate 104 (.reader 0)

/-- What has happened then. -/
def semRun : List (SemReadersWriters.Action (Fin 1) (Fin 1)) ×
    SemReadersWriters.State (Fin 1) (Fin 1) :=
  ((SemReadersWriters.program fun _ => 3).exec (SemReadersWriters.idleState (Fin 1) (Fin 1))
    semSchedule).get (by decide +kernel)

/-- The condition-variable version: the same. -/
def condSchedule : List (CondReadersWriters.Choice (Fin 1) (Fin 1)) :=
  List.replicate 14 (.writer 0 ⟨7, 3⟩) ++ List.replicate 105 (.reader 0)

/-- What has happened then. -/
def condRun : List (CondReadersWriters.Action (Fin 1) (Fin 1)) ×
    CondReadersWriters.State (Fin 1) (Fin 1) :=
  ((CondReadersWriters.program fun _ => 3).exec (CondReadersWriters.startState (Fin 1) (Fin 1))
    condSchedule).get (by decide +kernel)

/-- In both programs the reader has found `99` multiples of `3`: those of the table with the
entry that the writer has set to `4`. -/
theorem consistent_reads_after_session :
    (semRun.2.reader 0).count = 99 ∧
    (semRun.2.reader 0).count = (Finset.univ.filter fun i =>
      (SemReadersWriters.tableBefore (SemReadersWriters.idleState (Fin 1) (Fin 1))
        semRun.1 0 i).tmod 3 = 0).card ∧
    (condRun.2.reader 0).count = 99 ∧
    (condRun.2.reader 0).count = (Finset.univ.filter fun i =>
      (CondReadersWriters.tableBefore (CondReadersWriters.startState (Fin 1) (Fin 1))
        condRun.1 0 i).tmod 3 = 0).card := by
  have hsem : (SemReadersWriters.program fun _ => 3).system.Run
      (SemReadersWriters.idleState (Fin 1) (Fin 1)) semRun.1 semRun.2 := by
    unfold semRun
    exact Machine.exec_run_get _
  have hcond : (CondReadersWriters.program fun _ => 3).system.Run
      (CondReadersWriters.startState (Fin 1) (Fin 1)) condRun.1 condRun.2 := by
    unfold condRun
    exact Machine.exec_run_get _
  obtain ⟨sem, cond⟩ := consistent_reads (R := Fin 1) (W := Fin 1) fun _ => 3
  have hread := (sem _ _ _ (SemReadersWriters.idle_idleState _ _) hsem 0).2 (by decide +kernel)
  have hread' := (cond _ _ _ (CondReadersWriters.start_startState _ _) hcond 0).2
    (by decide +kernel)
  exact ⟨by decide +kernel, hread, by decide +kernel, hread'⟩

end SystemyOperacyjne
