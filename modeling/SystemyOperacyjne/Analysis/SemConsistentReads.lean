import SystemyOperacyjne.Analysis.SemReadersWritersInvariant
import SystemyOperacyjne.Library.Sessions

/-!
# Consistent reads in the semaphore version

The threads of `cw09/zad1b/main.c` share their table: a writer that chooses how often it will
write has the token, so that no other writer is in its session and no reader is counted, and
a reader that performs `readers++` has the token, so that no writer is in its session. What
the readers report follows from the runs of the shared table alone.
-/

set_option autoImplicit false

namespace SystemyOperacyjne.SemReadersWriters

open Library

/-- The place of the first write is in the table. -/
theorem first_mod_lt (rand : Rand) : rand.first % tableSize < tableSize :=
  Nat.mod_lt _ (by decide)

/-- What a step is to the other threads: `amount=…` opens a session, `writers--` closes it,
and a reader starts with `readers++`. -/
def access {R W : Type} : Action R W → Option (Access R W (Fin tableSize) ℤ)
  | .writer w .randAmount rand => some (.opens w (rand.first % tableSize / 10 + 1))
  | .writer w .change rand =>
    some (.turn w ⟨rand.first % tableSize, first_mod_lt rand⟩
      (rand.second % 999 + 1 : ℕ))
  | .writer w .decWriters _ => some (.closes w)
  | .reader r .incReaders => some (.starts r)
  | _ => none

/-- Where a reader stands. -/
def RThread.view (t : RThread) : ReaderPlace :=
  match t.pc with
  | .postCheck => .ready
  | .scan => .scanning t.i t.count
  | .waitCheckExit | .decReaders => .scanned t.count
  | _ => .away

/-- Where a writer stands. -/
def WThread.view (t : WThread) : WriterPlace :=
  match t.pc with
  | .change => .writing t.i t.amount
  | .decWriters => .written
  | _ => .away

/-- The table, and where everybody stands. -/
def State.view {R W : Type} (s : State R W) : Sharing R W ℤ tableSize where
  table := s.mem.table
  reader r := (s.reader r).view
  writer w := (s.writer w).view

/-- A reader that is at the table is between its `readers++` and its `readers--`. -/
theorem RThread.reading_of_view {t : RThread} (h : t.view ≠ .away) : t.Reading := by
  unfold RThread.Reading
  cases hpc : t.pc
  case postCheck | scan | waitCheckExit | decReaders => simp
  all_goals simp [RThread.view, hpc] at h

/-- A writer in its session changes the table in the sense of the token invariant. -/
theorem WThread.phase_of_view {t : WThread} (h : t.view ≠ .away) : t.pc.phase = .changing := by
  cases hpc : t.pc
  case change | decWriters => rfl
  all_goals simp [WThread.view, hpc] at h

section Threads

variable {m m' : Shared}

/-- Readers do not write. -/
theorem rFunc_table {div : ℤ} {t t' : RThread} (h : rFunc div m t = some (m', t')) :
    m'.table = m.table := by
  cases hpc : t.pc
  all_goals simp only [rFunc, hpc] at h
  case waitCheck | waitCheckExit =>
    obtain ⟨v, -, h⟩ := Option.map_eq_some_iff.mp h
    cases h
    rfl
  case scan =>
    split at h <;>
      · cases h
        rfl
  all_goals
    cases h
    rfl

/-- **What a reader's step is at the table**: a step of the scan, unless it is `readers++`. -/
theorem rFunc_view {div : ℤ} {t t' : RThread} (h : rFunc div m t = some (m', t'))
    (hpc : t.pc ≠ .incReaders) :
    ReaderPlace.Step (fun x => x.tmod div = 0) m.table t.view t'.view := by
  cases hpc' : t.pc
  all_goals simp only [rFunc, hpc'] at h
  case incReaders => exact absurd hpc' hpc
  case waitCheck =>
    obtain ⟨v, -, h⟩ := Option.map_eq_some_iff.mp h
    cases h
    exact .leaves _
  case postCheck =>
    cases h
    simp only [RThread.view, hpc']
    exact .begins
  case scan =>
    split at h
    · next hlt =>
      cases h
      simp only [RThread.view, hpc']
      exact .looks hlt
    · next hend =>
      cases h
      simp only [RThread.view, hpc']
      exact .ends (Nat.not_lt.mp hend)
  case waitCheckExit =>
    obtain ⟨v, -, h⟩ := Option.map_eq_some_iff.mp h
    cases h
    simp only [RThread.view, hpc']
    exact .stays _
  case testReaders | testWriters =>
    split at h <;>
      · cases h
        exact .leaves _
  all_goals
    cases h
    exact .leaves _

/-- After its `readers++` a reader is at the table. -/
theorem rFunc_starts {div : ℤ} {t t' : RThread} (h : rFunc div m t = some (m', t'))
    (hpc : t.pc = .incReaders) : t'.view = .ready := by
  simp only [rFunc, hpc, Option.some.injEq, Prod.mk.injEq] at h
  rw [← h.2]
  rfl

/-- A writer's step outside its session. -/
theorem wFunc_view {rand : Rand} {t t' : WThread} (h : wFunc rand m t = some (m', t'))
    (hrand : t.pc ≠ .randAmount) (hchange : t.pc ≠ .change) (hdec : t.pc ≠ .decWriters) :
    m'.table = m.table ∧ t'.view = t.view := by
  cases hpc : t.pc
  all_goals simp only [wFunc, hpc] at h
  case randAmount => exact absurd hpc hrand
  case change => exact absurd hpc hchange
  case decWriters => exact absurd hpc hdec
  case waitWriter | waitCheck | waitWait =>
    obtain ⟨v, -, h⟩ := Option.map_eq_some_iff.mp h
    cases h
    simp [WThread.view, hpc]
  case testReaders =>
    split at h <;>
      · cases h
        simp [WThread.view, hpc]
  all_goals
    cases h
    simp [WThread.view, hpc]

end Threads

variable {R W : Type} [DecidableEq R] [DecidableEq W]

omit [DecidableEq W] in
/-- What is seen after a step of a reader. -/
theorem view_setReader (s : State R W) (r : R) {m : Shared} {t : RThread}
    (htable : m.table = s.mem.table) :
    (s.setReader r m t).view =
      { s.view with reader := Function.update s.view.reader r t.view } := by
  have hreader : ∀ r', (Function.update s.reader r t r').view =
      Function.update s.view.reader r t.view r' := by
    intro r'
    by_cases heq : r' = r <;> simp [heq, State.view]
  simp [State.view, State.setReader, htable, hreader]

omit [DecidableEq R] in
/-- What is seen after a step of a writer. -/
theorem view_setWriter (s : State R W) (w : W) (m : Shared) (t : WThread) :
    (s.setWriter w m t).view =
      { s.view with
        table := m.table
        writer := Function.update s.view.writer w t.view } := by
  have hwriter : ∀ w', (Function.update s.writer w t w').view =
      Function.update s.view.writer w t.view w' := by
    intro w'
    by_cases heq : w' = w <;> simp [heq, State.view]
  simp [State.view, State.setWriter, hwriter]

variable [Fintype R] [Fintype W] {div : R → ℤ} {s : State R W}

/-- A reader's step is one at the table. -/
theorem view_reader (hI : Inv s) {r : R} {m : Shared} {t : RThread}
    (h : rFunc (div r) s.mem (s.reader r) = some (m, t)) :
    Sharing.Step (fun r x => x.tmod (div r) = 0) s.view
      (access (.reader r (s.reader r).pc)) (s.setReader r m t).view := by
  rw [view_setReader s r (rFunc_table h)]
  by_cases hpc : (s.reader r).pc = .incReaders
  · rw [rFunc_starts h hpc, hpc]
    apply Sharing.Step.starts
    intro w
    by_contra hw
    exact hI.no_writer hpc w (WThread.phase_of_view hw)
  · have hnone : access (W := W) (.reader r (s.reader r).pc) = none := by
      cases hpc' : (s.reader r).pc
      case incReaders => exact absurd hpc' hpc
      all_goals rfl
    rw [hnone]
    exact .reads (rFunc_view h hpc)

/-- A writer's step is one at the table. The cases are the accesses. -/
theorem view_writer (hI : Inv s) {w : W} {rand : Rand} {m : Shared} {t : WThread}
    (h : wFunc rand s.mem (s.writer w) = some (m, t)) :
    Sharing.Step (fun r x => x.tmod (div r) = 0) s.view
      (access (.writer w (s.writer w).pc rand)) (s.setWriter w m t).view := by
  rw [view_setWriter]
  cases hpc : (s.writer w).pc
  case randAmount =>
    have hphase : (s.writer w).pc.phase = .changing := by
      rw [hpc]
      rfl
    simp only [wFunc, hpc] at h
    cases h
    apply Sharing.Step.opens
    · intro r
      by_contra hr
      exact hI.no_reader hphase r (RThread.reading_of_view hr)
    · intro w'
      by_contra hw'
      -- a writer inside its session would be `w`, which is not there yet
      have heq := hI.changing_unique (WThread.phase_of_view hw') hphase
      rw [heq] at hw'
      simp [State.view, WThread.view, hpc] at hw'
  case change =>
    have hplace : s.view.writer w = .writing (s.writer w).i (s.writer w).amount := by
      simp [State.view, WThread.view, hpc]
    simp only [wFunc, hpc] at h
    split at h
    · next hlt =>
      cases h
      exact .writes _ _ hplace hlt
    · next hend =>
      cases h
      exact .written _ _ hplace hend
  case decWriters =>
    have hplace : s.view.writer w = .written := by
      simp [State.view, WThread.view, hpc]
    simp only [wFunc, hpc] at h
    cases h
    exact .closes hplace
  all_goals
    obtain ⟨htable, hview⟩ := wFunc_view h (by simp [hpc]) (by simp [hpc]) (by simp [hpc])
    rw [htable, hview, show (s.writer w).view = s.view.writer w from rfl,
      Function.update_eq_self]
    exact .stays _

/-- **The program simulates the shared table.** -/
theorem sharing_simulation (div : R → ℤ) :
    Simulation (program (W := W) div).system
      (sharing tableSize fun r x => x.tmod (div r) = 0) access id
      fun s t => Inv s ∧ s.view = t where
  init s hs := by
    refine ⟨s.view, ⟨?_, ?_⟩, inv_idle hs, rfl⟩
    · intro r
      simp [State.view, RThread.view, hs.reader r]
    · intro w
      simp [State.view, WThread.view, hs.writer w]
  step s t a s' hR hstep := by
    obtain ⟨hI, rfl⟩ := hR
    have hI' := (inv_invariant div).step s a s' hI hstep
    have hmove : Sharing.Step (fun r x => x.tmod (div r) = 0) s.view (access a) s'.view := by
      rcases step_cases hstep with ⟨r, m, t, hr, rfl, rfl⟩ | ⟨w, rand, m, t, hw, rfl, rfl⟩
      · exact view_reader hI hr
      · exact view_writer hI hw
    refine ⟨[access a], s'.view, .single hmove, ?_, hI', rfl⟩
    cases access a <;> rfl

/-- **The journal of a run.** -/
def recorded (l : List (Action R W)) : Journal R W (Fin tableSize) ℤ :=
  journal (l.filterMap access)

/-- **The table is serial along every run.** -/
theorem serial_run {s₀ : State R W} {l : List (Action R W)} (hinit : Idle s₀)
    (hrun : (program div).system.Run s₀ l s) :
    s.view.Serial (fun r x => x.tmod (div r) = 0) s₀.mem.table (recorded l) :=
  serial_of_simulation (sharing_simulation div) hinit hrun

end SystemyOperacyjne.SemReadersWriters
