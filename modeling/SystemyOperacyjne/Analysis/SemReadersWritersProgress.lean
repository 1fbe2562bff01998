import SystemyOperacyjne.Analysis.SemReadersWritersInvariant

/-!
# The semaphore version can always come to rest

From any reachable state the threads that are inside their loop can finish it, one after
the other, with no thread starting a new round: as long as some thread is not at the top,
one of these threads is not blocked (`exists_enabled`), and its step brings it closer to
the top (`rFunc_rank`, `wFunc_rank`). The token invariant says which thread that is: the
holder of the token, or anybody who waits where the token lies.
-/

set_option autoImplicit false

namespace SystemyOperacyjne.SemReadersWriters

open Library

/-! ## Steps to the top of the loop -/

/-- A bound on the steps a reader needs to be back at the top of its loop. -/
def RThread.rank (t : RThread) : ℕ :=
  match t.pc with
  | .waitCheck => 0
  | .postCheckExit | .postWait => 1
  | .testWriters => 2
  | .testReaders => 3
  | .decReaders => 4
  | .waitCheckExit => 5
  | .scan => 6 + (tableSize - t.i)
  | .postCheck => 7 + tableSize
  | .incReaders => 8 + tableSize

/-- A bound on the steps a writer needs to be back at the top of its loop; `amount` is at
most `10`. -/
def WThread.rank (t : WThread) : ℕ :=
  match t.pc with
  | .waitWriter => 0
  | .postWriter => 1
  | .postCheck => 2
  | .decWriters => 3
  | .change => 4 + (t.amount - t.i)
  | .randAmount => 15
  | .waitWait => 16
  | .releaseCheck => 17
  | .testReaders => 18
  | .incWriters => 19
  | .waitCheck => 20

/-- A reader that is inside its loop comes closer to the top with every step. -/
theorem rFunc_rank {div : ℤ} {m m' : Shared} {t t' : RThread}
    (h : rFunc div m t = some (m', t')) (hpc : t.pc ≠ .waitCheck) : t'.rank < t.rank := by
  cases hk : t.pc
  all_goals simp only [rFunc, hk] at h
  case waitCheck => exact absurd hk hpc
  case waitCheckExit =>
    obtain ⟨v, -, h⟩ := Option.map_eq_some_iff.mp h
    cases h
    simp [RThread.rank, hk]
  case scan =>
    split at h
    · rename_i hi
      cases h
      simp only [RThread.rank, hk]
      omega
    · cases h
      simp only [RThread.rank, hk]
      omega
  case testReaders =>
    split at h <;> cases h <;> simp [RThread.rank, hk]
  case testWriters =>
    split at h <;> cases h <;> simp [RThread.rank, hk]
  all_goals
    cases h
    simp [RThread.rank, hk]

/-- A writer that is inside its loop comes closer to the top with every step. -/
theorem wFunc_rank {rand : Rand} {m m' : Shared} {t t' : WThread}
    (h : wFunc rand m t = some (m', t')) (hpc : t.pc ≠ .waitWriter) : t'.rank < t.rank := by
  cases hk : t.pc
  all_goals simp only [wFunc, hk] at h
  case waitWriter => exact absurd hk hpc
  case waitCheck =>
    obtain ⟨v, -, h⟩ := Option.map_eq_some_iff.mp h
    cases h
    simp [WThread.rank, hk]
  case waitWait =>
    obtain ⟨v, -, h⟩ := Option.map_eq_some_iff.mp h
    cases h
    simp [WThread.rank, hk]
  case testReaders =>
    split at h <;> cases h <;> simp [WThread.rank, hk]
  case randAmount =>
    cases h
    have hamount : rand.first % tableSize < tableSize := Nat.mod_lt _ (by decide)
    simp only [WThread.rank, hk, tableSize] at hamount ⊢
    omega
  case change =>
    split at h
    · cases h
      simp only [WThread.rank, hk]
      omega
    · cases h
      simp only [WThread.rank, hk]
      omega
  all_goals
    cases h
    simp [WThread.rank, hk]

/-- A reader is blocked only by an empty `semCheck`. -/
theorem rFunc_enabled (div : ℤ) (m : Shared) (t : RThread)
    (h : t.pc = .waitCheck ∨ t.pc = .waitCheckExit → 0 < m.semCheck) :
    ∃ m' t', rFunc div m t = some (m', t') := by
  cases hk : t.pc
  case waitCheck =>
    have := Semaphore.wait_of_pos (h (.inl hk))
    simp [rFunc, hk, this]
  case waitCheckExit =>
    have := Semaphore.wait_of_pos (h (.inr hk))
    simp [rFunc, hk, this]
  case scan =>
    simp only [rFunc, hk]
    split <;> simp
  all_goals simp [rFunc, hk]

/-- A writer is blocked only by an empty semaphore it waits for. -/
theorem wFunc_enabled (rand : Rand) (m : Shared) (t : WThread)
    (hwriter : t.pc = .waitWriter → 0 < m.semWriter) (hcheck : t.pc = .waitCheck → 0 < m.semCheck)
    (hwait : t.pc = .waitWait → 0 < m.semWait) :
    ∃ m' t', wFunc rand m t = some (m', t') := by
  cases hk : t.pc
  case waitWriter =>
    have := Semaphore.wait_of_pos (hwriter hk)
    simp [wFunc, hk, this]
  case waitCheck =>
    have := Semaphore.wait_of_pos (hcheck hk)
    simp [wFunc, hk, this]
  case waitWait =>
    have := Semaphore.wait_of_pos (hwait hk)
    simp [wFunc, hk, this]
  case change =>
    simp only [wFunc, hk]
    split <;> simp
  all_goals simp [wFunc, hk]

/-! ## Somebody inside a loop can step -/

variable {R W : Type} [Fintype R] [Fintype W]

/-- In a state of the invariant that is not idle, some thread inside its loop is not
blocked. -/
theorem exists_enabled {s : State R W} (hI : Inv s) (hne : ¬ Idle s) :
    (∃ r, (s.reader r).pc ≠ .waitCheck ∧ ((s.reader r).pc = .waitCheckExit → 0 < s.mem.semCheck)) ∨
    (∃ w, (s.writer w).pc ≠ .waitWriter ∧ ((s.writer w).pc = .waitCheck → 0 < s.mem.semCheck) ∧
      ((s.writer w).pc = .waitWait → 0 < s.mem.semWait)) := by
  by_contra hcon
  rw [not_or] at hcon
  obtain ⟨hr, hw⟩ := hcon
  push Not at hr hw
  obtain ⟨⟨hreaders, hwriters, hcheck, hwriter⟩, hh⟩ := hI
  -- nobody holds the token: a holder is never blocked
  have hr0 : ∀ k, k ≠ .idle → k ≠ .reading → s.nr k = 0 := by
    intro k hidle hreading
    apply count_eq_zero
    intro r hk
    by_cases htop : (s.reader r).pc = .waitCheck
    · exact hidle (by rw [← hk, htop]; rfl)
    · exact hreading (by rw [← hk, (hr r htop).1]; rfl)
  have hwpc : ∀ w, (s.writer w).pc ≠ .waitWriter →
      (s.writer w).pc = .waitCheck ∧ s.mem.semCheck ≤ 0 ∨
      (s.writer w).pc = .waitWait ∧ s.mem.semWait ≤ 0 := by
    intro w htop
    by_cases hk : (s.writer w).pc = .waitCheck ∧ s.mem.semCheck ≤ 0
    · exact .inl hk
    · exact .inr (hw w htop fun h => by
        by_contra hle
        exact hk ⟨h, not_lt.mp hle⟩)
  have hw0 : ∀ k, k ≠ .idle → k ≠ .writer → k ≠ .waiting → s.nw k = 0 := by
    intro k hidle hwriter hwaiting
    apply count_eq_zero
    intro w hk
    by_cases htop : (s.writer w).pc = .waitWriter
    · exact hidle (by rw [← hk, htop]; rfl)
    · rcases hwpc w htop with ⟨hpc, -⟩ | ⟨hpc, -⟩
      · exact hwriter (by rw [← hk, hpc]; rfl)
      · exact hwaiting (by rw [← hk, hpc]; rfl)
  have hfree : s.mem.semCheck + s.mem.semWait = 1 := by
    simpa [checkHolders, hr0, hw0] using hcheck
  -- nobody waits where the token lies
  rcases Nat.eq_zero_or_pos s.mem.semWait with hwait | hwait
  · have hpos : 0 < s.mem.semCheck := by omega
    have hrtop : ∀ r, (s.reader r).pc = .waitCheck := fun r => by
      by_contra htop
      have := (hr r htop).2
      omega
    have hreading : s.nr .reading = 0 :=
      count_eq_zero fun r => by rw [hrtop r]; decide
    have hwaiting : s.nw .waiting = 0 := by
      have := hh.waiting
      simp only [readingNo, hr0, hreading, hwait, ne_eq, reduceCtorEq, not_false_eq_true] at this
      omega
    have hwtop : ∀ w, (s.writer w).pc = .waitWriter := fun w => by
      by_contra htop
      rcases hwpc w htop with ⟨-, hle⟩ | ⟨hpc, -⟩
      · omega
      · have := count_pos (fun w => (s.writer w).pc.phase) w
        rw [hpc] at this
        exact absurd hwaiting this.ne'
    have hw1 : s.nw .writer = 0 := count_eq_zero fun w => by rw [hwtop w]; decide
    refine hne ⟨hwait, ?_, by omega, ?_, ?_, hrtop, hwtop⟩
    · simpa [writerHolders, hw0, hw1, hwaiting] using hwriter
    · simpa [readingNo, hr0, hreading] using hreaders
    · simpa [countedNo, hw0, hwaiting] using hwriters
  · obtain ⟨-, hone⟩ := hh.handed (by omega)
    obtain ⟨w, hk⟩ := exists_of_count_pos (fun w => (s.writer w).pc.phase) (k := .waiting)
      (by rw [show count _ _ = s.nw .waiting from rfl]; omega)
    have hpc : (s.writer w).pc = .waitWait := by
      cases hpc : (s.writer w).pc <;> rw [hpc] at hk <;> simp [WPc.phase] at hk
    rcases hwpc w (by rw [hpc]; decide) with ⟨hpc', -⟩ | ⟨-, hle⟩
    · rw [hpc] at hpc'
      cases hpc'
    · omega

variable [DecidableEq R] [DecidableEq W]

/-- A bound on the steps that bring every thread back to the top of its loop. -/
def State.rank (s : State R W) : ℕ :=
  census RThread.rank s.reader + census WThread.rank s.writer

/-- **Progress**: off the idle states, some step brings the threads closer to the tops of
their loops. -/
theorem progress (div : R → ℤ) {s : State R W} (hI : Inv s) (hne : ¬ Idle s) :
    ∃ a s', (program div).system.step s a s' ∧ Inv s' ∧ s'.rank < s.rank := by
  rcases exists_enabled hI hne with ⟨r, htop, henabled⟩ | ⟨w, htop, hcheck, hwait⟩
  · obtain ⟨m, t, hstep⟩ := rFunc_enabled (div r) s.mem (s.reader r)
      (fun h => henabled (h.resolve_left htop))
    have hlt := rFunc_rank hstep htop
    have hrank := census_update RThread.rank s.reader r t
    refine ⟨_, _, step_reader hstep, (inv_invariant div).step _ _ _ hI (step_reader hstep), ?_⟩
    simp only [State.rank, State.setReader]
    omega
  · obtain ⟨m, t, hstep⟩ := wFunc_enabled ⟨0, 0⟩ s.mem (s.writer w) (fun h => absurd h htop)
      hcheck hwait
    have hlt := wFunc_rank hstep htop
    have hrank := census_update WThread.rank s.writer w t
    refine ⟨_, _, step_writer hstep, (inv_invariant div).step _ _ _ hI (step_writer hstep), ?_⟩
    simp only [State.rank, State.setWriter]
    omega

omit [Fintype R] [Fintype W] in
/-- In an idle state every thread may start a round. -/
theorem idle_step (div : R → ℤ) {s : State R W} (h : Idle s) (hthread : Nonempty R ∨ Nonempty W) :
    ∃ a s', (program div).system.step s a s' := by
  rcases hthread with ⟨⟨r⟩⟩ | ⟨⟨w⟩⟩
  · obtain ⟨m, t, hstep⟩ := rFunc_enabled (div r) s.mem (s.reader r)
      (fun _ => by rw [h.semCheck]; decide)
    exact ⟨_, _, step_reader hstep⟩
  · obtain ⟨m, t, hstep⟩ := wFunc_enabled ⟨0, 0⟩ s.mem (s.writer w)
      (fun _ => by rw [h.semWriter]; decide) (by rw [h.writer w]; simp) (by rw [h.writer w]; simp)
    exact ⟨_, _, step_writer hstep⟩

/-- **No deadlock and no lost permit**: from every reachable state some continuation leads
to an idle state; as long as there is a thread at all, some thread can step; and the
permits that lie in `semCheck`, `semWait` and `semWriter` and those that threads hold are
always the two that `main` put there.
SOURCE: cw09/zad1b/main.c:72-136 -/
theorem returns_to_idle (div : R → ℤ) {s : State R W} (h : (program div).system.Reachable s) :
    (∃ l s', (program div).system.Run s l s' ∧ Idle s') ∧
    (Nonempty R ∨ Nonempty W → ∃ a s', (program div).system.step s a s') ∧
    s.mem.semCheck + s.mem.semWait + checkHolders s.nr s.nw = 1 ∧
    s.mem.semWriter + writerHolders s.nw = 1 := by
  have hI := (inv_invariant div).reachable h
  refine ⟨?_, ?_, hI.permits.check, hI.permits.writer⟩
  · obtain ⟨l, s', hrun, -, hidle, -⟩ := System.drain (fun _ => True) State.rank
      (fun s hI hne => by
        obtain ⟨a, s', hstep, hI', hlt⟩ := progress div hI hne
        exact ⟨a, s', hstep, trivial, hI', hlt⟩) hI
    exact ⟨l, s', hrun, hidle⟩
  · intro hthread
    by_cases hidle : Idle s
    · exact idle_step div hidle hthread
    · obtain ⟨a, s', hstep, -, -⟩ := progress div hI hidle
      exact ⟨a, s', hstep⟩

/-- The hand-over from its middle: a reader scans, the writer waits for `semWait`, and the
program can still come to rest. -/
theorem returns_to_idle_from_waiting :
    ∃ s : State (Fin 1) (Fin 1), (program fun _ => 1).system.Reachable s ∧
      (s.reader 0).pc = .scan ∧ (s.writer 0).pc = .waitWait ∧
      ∃ l s', (program fun _ => 1).system.Run s l s' ∧ Idle s' := by
  have h := Machine.exec_reachable (M := program (W := Fin 1) fun _ => 1)
    (idle_idleState (Fin 1) (Fin 1))
    (List.replicate 3 (.reader 0) ++ List.replicate 5 (.writer 0 ⟨7, 3⟩)) (by decide)
  obtain ⟨hidle, -⟩ := returns_to_idle (fun _ => 1) h
  exact ⟨_, h, by decide, by decide, hidle⟩

end SystemyOperacyjne.SemReadersWriters
