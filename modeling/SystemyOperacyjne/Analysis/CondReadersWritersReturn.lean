import Mathlib.Data.Prod.Lex
import SystemyOperacyjne.Analysis.CondReadersWritersProgress

/-!
# The condition-variable version comes to rest

No thread has to wait for ever: from every reachable state the threads can go on, without a
spurious wake-up, until all of them are at the top of their loops and the shared memory is as
`main` has left it. A broadcast wakes threads that have to test their condition once more, but it
ends a round of the thread that makes it; every other step brings its thread closer to the top of
the loop, or to sleep.
-/

set_option autoImplicit false

namespace SystemyOperacyjne.CondReadersWriters

open Library

/-! ## Rounds -/

/-- `1` for a reader with a broadcast ahead of it. -/
def RThread.inRound (t : RThread) : ℕ :=
  match t.pc with
  | .lock | .unlockExit => 0
  | _ => 1

/-- `1` for a writer with a broadcast ahead of it. -/
def WThread.inRound (t : WThread) : ℕ :=
  match t.pc with
  | .lock | .unlockExit => 0
  | _ => 1

/-- A bound on the steps that a reader takes until it is asleep, or at the top of its loop. -/
def RThread.left (t : RThread) : ℕ :=
  match t.pc with
  | .lock | .asleep => 0
  | .condWait | .unlockExit => 1
  | .broadcast => 2
  | .decReaders => 3
  | .lockExit => 4
  | .scan => 5 + (tableSize - t.i)
  | .unlock => 6 + tableSize
  | .incReaders => 7 + tableSize
  | .testQueue => 8 + tableSize
  | .woken => 9 + tableSize

/-- A bound on the steps that a writer takes until it is asleep, or at the top of its loop;
`amount` is at most `10`. -/
def WThread.left (t : WThread) : ℕ :=
  match t.pc with
  | .lock | .asleep => 0
  | .condWait | .unlockExit => 1
  | .broadcast => 2
  | .decQueue => 3
  | .decWriters => 4
  | .lockExit => 5
  | .change => 6 + (t.amount - t.i)
  | .randAmount => 17
  | .unlock => 18
  | .incWriters => 19
  | .testWriters => 20
  | .testReaders => 21
  | .incQueue | .woken => 22

/-- **A reader inside its loop** ends its round with a broadcast, or comes closer. -/
theorem rFunc_left {div : ℤ} {m : Shared} {t : RThread} {o : Outcome RThread}
    (h : rFunc div m t = some o) (hpc : t.pc ≠ .lock) :
    o.broadcast = true ∧ o.thread.inRound < t.inRound ∨
      o.broadcast = false ∧ o.thread.inRound ≤ t.inRound ∧ o.thread.left < t.left := by
  cases hk : t.pc
  all_goals simp only [rFunc, hk, reduceCtorEq] at h
  case lock => exact absurd hk hpc
  case woken | lockExit =>
    obtain ⟨v, -, h⟩ := Option.map_eq_some_iff.mp h
    cases h
    simp [RThread.inRound, RThread.left, hk]
  case testQueue =>
    cases h
    split
    · simp [RThread.inRound, RThread.left, hk, tableSize]
    · simp [RThread.inRound, RThread.left, hk]
  case scan =>
    have hround : t.inRound = 1 := by
      unfold RThread.inRound
      rw [hk]
    right
    split at h
    · cases h
      refine ⟨rfl, hround.ge, ?_⟩
      simp only [RThread.left, hk]
      omega
    · cases h
      refine ⟨rfl, hround.ge, ?_⟩
      simp only [RThread.left, hk]
      omega
  all_goals
    cases h
    simp [RThread.inRound, RThread.left, hk]

/-- **A writer inside its loop** ends its round with a broadcast, or comes closer. -/
theorem wFunc_left {rand : Rand} {m : Shared} {t : WThread} {o : Outcome WThread}
    (h : wFunc rand m t = some o) (hpc : t.pc ≠ .lock) :
    o.broadcast = true ∧ o.thread.inRound < t.inRound ∨
      o.broadcast = false ∧ o.thread.inRound ≤ t.inRound ∧ o.thread.left < t.left := by
  cases hk : t.pc
  all_goals simp only [wFunc, hk, reduceCtorEq] at h
  case lock => exact absurd hk hpc
  case woken | lockExit =>
    obtain ⟨v, -, h⟩ := Option.map_eq_some_iff.mp h
    cases h
    simp [WThread.inRound, WThread.left, hk]
  case testReaders | testWriters =>
    cases h
    split
    · simp [WThread.inRound, WThread.left, hk]
    · simp [WThread.inRound, WThread.left, hk]
  case randAmount =>
    cases h
    have hamount : rand.first % tableSize < tableSize := Nat.mod_lt _ (by decide)
    right
    refine ⟨rfl, by simp [WThread.inRound, hk], ?_⟩
    simp only [WThread.left, hk, tableSize] at hamount ⊢
    omega
  case change =>
    have hround : t.inRound = 1 := by
      unfold WThread.inRound
      rw [hk]
    right
    split at h
    · cases h
      refine ⟨rfl, hround.ge, ?_⟩
      simp only [WThread.left, hk]
      omega
    · cases h
      refine ⟨rfl, hround.ge, ?_⟩
      simp only [WThread.left, hk]
      omega
  all_goals
    cases h
    simp [WThread.inRound, WThread.left, hk]

/-- A reader that wakes up is in its round as before. -/
theorem RThread.inRound_wake (t : RThread) : t.wake.inRound = t.inRound := by
  unfold RThread.inRound RThread.wake
  cases t.pc <;> rfl

/-- So is a writer. -/
theorem WThread.inRound_wake (t : WThread) : t.wake.inRound = t.inRound := by
  unfold WThread.inRound WThread.wake
  cases t.pc <;> rfl

variable {R W : Type} [Fintype R] [Fintype W]

/-- The rounds that are to be ended, and then the steps that are left. -/
def State.rank (s : State R W) : ℕ ×ₗ ℕ :=
  toLex (census RThread.inRound s.reader + census WThread.inRound s.writer,
    census RThread.left s.reader + census WThread.left s.writer)

/-- A broadcast ends no round but that of the thread that makes it. -/
theorem census_wakeAll (s : State R W) :
    census RThread.inRound s.wakeAll.reader + census WThread.inRound s.wakeAll.writer =
      census RThread.inRound s.reader + census WThread.inRound s.writer := by
  unfold census State.wakeAll
  simp only [RThread.inRound_wake, WThread.inRound_wake]

/-! ## Somebody inside its loop can go on -/

/-- Where every thread that is awake has to lock the mutex, nobody has it. -/
theorem mutex_free {s : State R W} (hc : Core s.mem s.nr s.nw)
    (hr : ∀ r, (s.reader r).pc ≠ .asleep → (s.reader r).pc.Locks)
    (hw : ∀ w, (s.writer w).pc ≠ .asleep → (s.writer w).pc.Locks) : s.mem.mutex = false := by
  have hr0 : ∀ k, k ∉ [RPhase.idle, .asleep, .woken, .reading] → s.nr k = 0 := by
    intro k hk
    apply count_eq_zero
    rintro r rfl
    by_cases hawake : (s.reader r).pc = .asleep
    · simp [hawake, RPc.phase] at hk
    · rcases hr r hawake with hpc | hpc | hpc <;> simp [hpc, RPc.phase] at hk
  have hw0 : ∀ k, k ∉ [WPhase.idle, .asleep, .woken, .changing] → s.nw k = 0 := by
    intro k hk
    apply count_eq_zero
    rintro w rfl
    by_cases hawake : (s.writer w).pc = .asleep
    · simp [hawake, WPc.phase] at hk
    · rcases hw w hawake with hpc | hpc | hpc <;> simp [hpc, WPc.phase] at hk
  have hholders := hc.mutex
  simp only [mutexHolders, List.mem_cons, List.not_mem_nil, or_false, reduceCtorEq,
    not_false_eq_true, hr0, hw0, add_zero] at hholders
  cases hm : s.mem.mutex with
  | false => rfl
  | true => simp [hm] at hholders

/-- With the mutex free and every thread at the top of its loop or asleep, nobody is asleep: a
reader would wait for a writer, and a writer for somebody inside. -/
theorem start_of_quiet {s : State R W} (hI : Inv s) (hfree : s.mem.mutex = false)
    (hr : ∀ r, (s.reader r).pc = .lock ∨ (s.reader r).pc = .asleep)
    (hw : ∀ w, (s.writer w).pc = .lock ∨ (s.writer w).pc = .asleep) : Start s := by
  obtain ⟨hc, hs⟩ := hI
  have hr0 : ∀ k, k ≠ .idle → k ≠ .asleep → s.nr k = 0 := by
    intro k hidle hasleep
    apply count_eq_zero
    rintro r rfl
    rcases hr r with hpc | hpc
    · exact hidle (by rw [hpc]; rfl)
    · exact hasleep (by rw [hpc]; rfl)
  have hw0 : ∀ k, k ≠ .idle → k ≠ .asleep → s.nw k = 0 := by
    intro k hidle hasleep
    apply count_eq_zero
    rintro w rfl
    rcases hw w with hpc | hpc
    · exact hidle (by rw [hpc]; rfl)
    · exact hasleep (by rw [hpc]; rfl)
  have hwriters : s.nw .asleep = 0 := by
    have h := hs.writer
    simp only [readingNo, countedNo, ne_eq, reduceCtorEq, not_false_eq_true, hr0, hw0] at h
    omega
  have hreaders : s.nr .asleep = 0 := by
    have h := hs.reader
    simp only [queuedNo, ne_eq, reduceCtorEq, not_false_eq_true, hw0, hwriters] at h
    omega
  constructor
  · exact hfree
  · rw [hc.readers]
    simp [readingNo, hr0]
  · rw [hc.writers]
    simp [countedNo, hw0]
  · rw [hc.queue]
    simp [queuedNo, hw0, hwriters]
  · intro r
    apply (hr r).resolve_right
    intro hpc
    have hpos := count_pos (fun r => (s.reader r).pc.phase) r
    rw [hpc] at hpos
    exact absurd hreaders hpos.ne'
  · intro w
    apply (hw w).resolve_right
    intro hpc
    have hpos := count_pos (fun w => (s.writer w).pc.phase) w
    rw [hpc] at hpos
    exact absurd hwriters hpos.ne'

/-- **Off the start states** some thread inside its loop is awake and does not wait for the
mutex. -/
theorem exists_inside {s : State R W} (hI : Inv s) (hne : ¬ Start s) :
    (∃ r, (s.reader r).pc ≠ .lock ∧ (s.reader r).pc ≠ .asleep ∧
      ((s.reader r).pc.Locks → s.mem.mutex = false)) ∨
    ∃ w, (s.writer w).pc ≠ .lock ∧ (s.writer w).pc ≠ .asleep ∧
      ((s.writer w).pc.Locks → s.mem.mutex = false) := by
  by_contra hcon
  rw [not_or] at hcon
  obtain ⟨hr, hw⟩ := hcon
  push Not at hr hw
  have hfree : s.mem.mutex = false := by
    apply mutex_free hI.core
    · intro r hawake
      by_cases htop : (s.reader r).pc = .lock
      · exact .inl htop
      · exact (hr r htop hawake).1
    · intro w hawake
      by_cases htop : (s.writer w).pc = .lock
      · exact .inl htop
      · exact (hw w htop hawake).1
  apply hne
  apply start_of_quiet hI hfree
  · intro r
    by_contra hpc
    rw [not_or] at hpc
    exact (hr r hpc.1 hpc.2).2 hfree
  · intro w
    by_contra hpc
    rw [not_or] at hpc
    exact (hw w hpc.1 hpc.2).2 hfree

variable [DecidableEq R] [DecidableEq W]

/-- **Progress**: off the start states some step that is no spurious wake-up makes the rank
smaller. -/
theorem progress (div : R → ℤ) {s : State R W} (hI : Inv s) (hne : ¬ Start s) :
    ∃ a s', (program div).system.step s a s' ∧ ¬ a.Spurious ∧ s'.rank < s.rank := by
  rcases exists_inside hI hne with ⟨r, htop, hawake, hfree⟩ | ⟨w, htop, hawake, hfree⟩
  · obtain ⟨o, hstep⟩ := rFunc_enabled (div r) s.mem (s.reader r) hawake hfree
    refine ⟨_, _, ⟨.reader r, Option.map_eq_some_iff.mpr ⟨o, hstep, rfl⟩⟩, id, ?_⟩
    have hround := census_update RThread.inRound s.reader r o.thread
    have hleft := census_update RThread.left s.reader r o.thread
    rcases rFunc_left hstep htop with ⟨hb, hlt⟩ | ⟨hb, hle, hlt⟩
    · have hwake := census_wakeAll (s.setReader r o.mem o.thread)
      rw [hb, State.signalled, if_pos rfl]
      unfold State.rank
      rw [Prod.Lex.toLex_lt_toLex]
      simp only [State.setReader] at hwake ⊢
      omega
    · rw [hb, State.signalled, if_neg (by decide)]
      unfold State.rank
      rw [Prod.Lex.toLex_lt_toLex]
      simp only [State.setReader]
      omega
  · obtain ⟨o, hstep⟩ := wFunc_enabled ⟨0, 0⟩ s.mem (s.writer w) hawake hfree
    refine ⟨_, _, ⟨.writer w ⟨0, 0⟩, Option.map_eq_some_iff.mpr ⟨o, hstep, rfl⟩⟩, id, ?_⟩
    have hround := census_update WThread.inRound s.writer w o.thread
    have hleft := census_update WThread.left s.writer w o.thread
    rcases wFunc_left hstep htop with ⟨hb, hlt⟩ | ⟨hb, hle, hlt⟩
    · have hwake := census_wakeAll (s.setWriter w o.mem o.thread)
      rw [hb, State.signalled, if_pos rfl]
      unfold State.rank
      rw [Prod.Lex.toLex_lt_toLex]
      simp only [State.setWriter] at hwake ⊢
      omega
    · rw [hb, State.signalled, if_neg (by decide)]
      unfold State.rank
      rw [Prod.Lex.toLex_lt_toLex]
      simp only [State.setWriter]
      omega

/-- **The program can always come to rest**: from every reachable state some continuation without
spurious wake-ups leads to a state in which all threads are at the top of their loops, the mutex
is free and the counters are `0`.
SOURCE: cw09/zad1a/main.c:68-131 -/
theorem returns_to_start (div : R → ℤ) {s : State R W} (h : (program div).system.Reachable s) :
    ∃ l s', (program div).system.Run s l s' ∧ (∀ a ∈ l, ¬ a.Spurious) ∧ Start s' := by
  have hprogress : ∀ s : State R W, Inv s → ¬ Start s → ∃ a s',
      (program div).system.step s a s' ∧ ¬ a.Spurious ∧ Inv s' ∧ s'.rank < s.rank := by
    intro s hI hne
    obtain ⟨a, s', hstep, hspurious, hlt⟩ := progress div hI hne
    exact ⟨a, s', hstep, hspurious, (inv_invariant div).step _ _ _ hI hstep, hlt⟩
  obtain ⟨l, s', hrun, hl, hstart, -⟩ := System.drain _ State.rank hprogress
    ((inv_invariant div).reachable h)
  exact ⟨l, s', hrun, hl, hstart⟩

/-- A writer changes the table while the other writer and the reader sleep, and all of them can
still come back. -/
theorem returns_to_start_while_asleep :
    ∃ s : State (Fin 1) (Fin 2), (program fun _ => 1).system.Reachable s ∧
      (s.reader 0).pc = .asleep ∧ (s.writer 1).pc = .asleep ∧
      ∃ l s', (program fun _ => 1).system.Run s l s' ∧ (∀ a ∈ l, ¬ a.Spurious) ∧ Start s' := by
  have h := Machine.exec_reachable (M := program (W := Fin 2) fun _ => 1)
    (start_startState (Fin 1) (Fin 2))
    (List.replicate 7 (.writer 0 ⟨7, 3⟩) ++ List.replicate 5 (.writer 1 ⟨7, 3⟩) ++
      List.replicate 3 (.reader 0)) (by decide)
  exact ⟨_, h, by decide, by decide, returns_to_start (fun _ => 1) h⟩

end SystemyOperacyjne.CondReadersWriters
