import SystemyOperacyjne.Library.Census
import SystemyOperacyjne.Model.CondReadersWriters
import Mathlib.Tactic.Linarith

/-!
# The invariant of the condition-variable version

A reader never looks at `writers`: what keeps it out is `writersInQueue`, which a writer
raises before it waits and lowers only after it is done. `Core` relates the three counters
and the mutex to the number of threads in each phase, and says what a thread that has
tested a condition and still holds the mutex knows. `Sleep` says why nobody sleeps in vain:
a sleeper's condition holds, or the thread that made it false holds the mutex and has its
broadcast ahead of it.
-/

set_option autoImplicit false

namespace SystemyOperacyjne.CondReadersWriters

open Library

/-- The phases of a reader. -/
inductive RPhase
  | idle | hold | calling | asleep | woken | admitted | holdReading | reading | signalling
  deriving DecidableEq, Repr

/-- The phases of a writer. -/
inductive WPhase
  | idle | hold | testReaders | testWriters | calling | asleep | woken | admitted
  | holdChanging | changing | leaving | signalling
  deriving DecidableEq, Repr

/-- The phase of a reader's program point. -/
def RPc.phase : RPc → RPhase
  | .lock => .idle
  | .testQueue | .unlockExit => .hold
  | .condWait => .calling
  | .asleep => .asleep
  | .woken => .woken
  | .incReaders => .admitted
  | .unlock | .decReaders => .holdReading
  | .scan | .lockExit => .reading
  | .broadcast => .signalling

/-- The phase of a writer's program point. -/
def WPc.phase : WPc → WPhase
  | .lock => .idle
  | .incQueue | .unlockExit => .hold
  | .testReaders => .testReaders
  | .testWriters => .testWriters
  | .condWait => .calling
  | .asleep => .asleep
  | .woken => .woken
  | .incWriters => .admitted
  | .unlock | .decWriters => .holdChanging
  | .randAmount | .change | .lockExit => .changing
  | .decQueue => .leaving
  | .broadcast => .signalling

section Numbers

variable (m : Shared) (nr : RPhase → ℕ) (nw : WPhase → ℕ)

/-- The number of readers between `readers++` and `readers--`. -/
def readingNo : ℕ :=
  nr .holdReading + nr .reading

/-- The number of writers between `writers++` and `writers--`. -/
def countedNo : ℕ :=
  nw .holdChanging + nw .changing

/-- The number of writers between `writersInQueue++` and `writersInQueue--`. -/
def queuedNo : ℕ :=
  nw .testReaders + nw .testWriters + nw .calling + nw .asleep + nw .woken + nw .admitted +
    nw .holdChanging + nw .changing + nw .leaving

/-- The number of threads that hold the mutex. -/
def mutexHolders : ℕ :=
  nr .hold + nr .calling + nr .admitted + nr .holdReading + nr .signalling + nw .hold +
    nw .testReaders + nw .testWriters + nw .calling + nw .admitted + nw .holdChanging +
    nw .leaving + nw .signalling

/-- **Counters and tests**: the counters count, the mutex has at most one holder, and a
holder that has tested a condition may rely on it. -/
structure Core : Prop where
  readers : m.readers = readingNo nr
  writers : m.writers = countedNo nw
  queue : m.writersInQueue = queuedNo nw
  mutex : m.mutex.toNat = mutexHolders nr nw
  changing : 0 < countedNo nw → readingNo nr = 0 ∧ countedNo nw = 1
  reader : 0 < nr .admitted → queuedNo nw = 0
  writer : 0 < nw .admitted → readingNo nr = 0 ∧ countedNo nw = 0
  noReader : 0 < nw .testWriters → readingNo nr = 0
  readerWaits : 0 < nr .calling → 0 < queuedNo nw
  writerWaits : 0 < nw .calling → 0 < readingNo nr + countedNo nw

/-- **No sleeper in vain**: its condition holds, or a broadcast is on its way. -/
structure Sleep : Prop where
  reader : 0 < nr .asleep → 0 < queuedNo nw + nw .signalling
  writer : 0 < nw .asleep →
    0 < readingNo nr + countedNo nw + nr .signalling + nw .leaving + nw .signalling

/-- A writer that counts in `writers` counts in `writersInQueue`. -/
theorem countedNo_le_queuedNo : countedNo nw ≤ queuedNo nw := by
  simp only [countedNo, queuedNo]
  omega

end Numbers

section Steps

variable {m : Shared} {nr nr' : RPhase → ℕ} {nw nw' : WPhase → ℕ}

/-- A reader's step keeps the counters and tests. The cases are the program points of
`rFunc`. -/
theorem reader_core {div : ℤ} {t : RThread} {o : Outcome RThread} (hc : Core m nr nw)
    (h : rFunc div m t = some o) (hpos : 0 < nr t.pc.phase)
    (move : ∀ k, nr' k + (if t.pc.phase = k then 1 else 0) =
      nr k + (if o.thread.pc.phase = k then 1 else 0)) :
    Core o.mem nr' nw := by
  obtain ⟨readers, writers, queue, mutex, changing, reader, writer, noReader, readerWaits,
    writerWaits⟩ := hc
  have h1 := move .hold
  have h2 := move .calling
  have h3 := move .admitted
  have h4 := move .holdReading
  have h5 := move .reading
  have h6 := move .signalling
  clear move
  simp only [readingNo, mutexHolders]
    at readers mutex changing writer noReader writerWaits
  have hone := Bool.toNat_le m.mutex
  have hcounted := countedNo_le_queuedNo nw
  cases hpc : t.pc
  all_goals simp only [rFunc, hpc, reduceCtorEq] at h hpos h1 h2 h3 h4 h5 h6
  case' lock | woken | lockExit =>
    obtain ⟨v, hv, h⟩ := Option.map_eq_some_iff.mp h
    obtain ⟨hfree, rfl⟩ := Shared.lock_eq_some.mp hv
    rw [hfree, Bool.toNat_false] at mutex
  case' testQueue | scan => split at h
  all_goals
    cases h
    simp only [RPc.phase, reduceCtorEq, if_true, if_false] at hpos h1 h2 h3 h4 h5 h6
    refine ⟨?_, writers, queue, ?_, ?_, ?_, ?_, ?_, ?_, ?_⟩ <;>
      (try simp only [readingNo, mutexHolders, Shared.unlock, Bool.toNat_false,
        Bool.toNat_true]) <;>
      lia

/-- A writer's step keeps the counters and tests. The cases are the program points of
`wFunc`. -/
theorem writer_core {rand : Rand} {t : WThread} {o : Outcome WThread} (hc : Core m nr nw)
    (h : wFunc rand m t = some o) (hpos : 0 < nw t.pc.phase)
    (move : ∀ k, nw' k + (if t.pc.phase = k then 1 else 0) =
      nw k + (if o.thread.pc.phase = k then 1 else 0)) :
    Core o.mem nr nw' := by
  obtain ⟨readers, writers, queue, mutex, changing, reader, writer, noReader, readerWaits,
    writerWaits⟩ := hc
  have h1 := move .hold
  have h2 := move .testReaders
  have h3 := move .testWriters
  have h4 := move .calling
  have h5 := move .asleep
  have h6 := move .woken
  have h7 := move .admitted
  have h8 := move .holdChanging
  have h9 := move .changing
  have h10 := move .leaving
  have h11 := move .signalling
  clear move
  have hone := Bool.toNat_le m.mutex
  simp only [countedNo, queuedNo, mutexHolders]
    at writers queue mutex changing reader writer readerWaits writerWaits
  cases hpc : t.pc
  all_goals simp only [wFunc, hpc, reduceCtorEq] at h hpos h1 h2 h3 h4 h5 h6 h7 h8 h9 h10 h11
  case' lock | woken | lockExit =>
    obtain ⟨v, hv, h⟩ := Option.map_eq_some_iff.mp h
    obtain ⟨hfree, rfl⟩ := Shared.lock_eq_some.mp hv
    rw [hfree, Bool.toNat_false] at mutex
  case' testReaders | testWriters | change => split at h
  all_goals
    cases h
    simp only [WPc.phase, reduceCtorEq, if_true, if_false]
      at hpos h1 h2 h3 h4 h5 h6 h7 h8 h9 h10 h11
    refine ⟨readers, ?_, ?_, ?_, ?_, ?_, ?_, ?_, ?_, ?_⟩ <;>
      (try simp only [countedNo, queuedNo, mutexHolders, Shared.unlock, Bool.toNat_false,
        Bool.toNat_true]) <;>
      lia

/-- A reader's step that is no broadcast leaves no sleeper in vain. -/
theorem reader_sleep {div : ℤ} {t : RThread} {o : Outcome RThread} (hc : Core m nr nw)
    (hs : Sleep nr nw) (h : rFunc div m t = some o) (hpos : 0 < nr t.pc.phase)
    (hb : o.broadcast = false)
    (move : ∀ k, nr' k + (if t.pc.phase = k then 1 else 0) =
      nr k + (if o.thread.pc.phase = k then 1 else 0)) :
    Sleep nr' nw := by
  obtain ⟨reader, writer⟩ := hs
  have waits := hc.readerWaits
  have h1 := move .asleep
  have h2 := move .holdReading
  have h3 := move .reading
  have h4 := move .signalling
  clear move
  simp only [readingNo] at writer
  cases hpc : t.pc
  all_goals simp only [rFunc, hpc, reduceCtorEq] at h hpos h1 h2 h3 h4
  case' lock | woken | lockExit => obtain ⟨v, -, h⟩ := Option.map_eq_some_iff.mp h
  case' testQueue | scan => split at h
  case' broadcast =>
    cases h
    cases hb
  all_goals
    cases h
    simp only [RPc.phase, reduceCtorEq, if_true, if_false] at hpos h1 h2 h3 h4
    refine ⟨?_, ?_⟩ <;> (try simp only [readingNo]) <;> lia

/-- A writer's step that is no broadcast leaves no sleeper in vain. -/
theorem writer_sleep {rand : Rand} {t : WThread} {o : Outcome WThread} (hc : Core m nr nw)
    (hs : Sleep nr nw) (h : wFunc rand m t = some o) (hpos : 0 < nw t.pc.phase)
    (hb : o.broadcast = false)
    (move : ∀ k, nw' k + (if t.pc.phase = k then 1 else 0) =
      nw k + (if o.thread.pc.phase = k then 1 else 0)) :
    Sleep nr nw' := by
  obtain ⟨reader, writer⟩ := hs
  have waits := hc.writerWaits
  have h1 := move .testReaders
  have h2 := move .testWriters
  have h3 := move .calling
  have h4 := move .asleep
  have h5 := move .woken
  have h6 := move .admitted
  have h7 := move .holdChanging
  have h8 := move .changing
  have h9 := move .leaving
  have h10 := move .signalling
  clear move
  simp only [countedNo, queuedNo] at reader writer waits
  cases hpc : t.pc
  all_goals simp only [wFunc, hpc, reduceCtorEq] at h hpos h1 h2 h3 h4 h5 h6 h7 h8 h9 h10
  case' lock | woken | lockExit => obtain ⟨v, -, h⟩ := Option.map_eq_some_iff.mp h
  case' testReaders | testWriters | change => split at h
  case' broadcast =>
    cases h
    cases hb
  all_goals
    cases h
    simp only [WPc.phase, reduceCtorEq, if_true, if_false]
      at hpos h1 h2 h3 h4 h5 h6 h7 h8 h9 h10
    refine ⟨?_, ?_⟩ <;> simp only [countedNo, queuedNo] <;> lia

/-- A wake-up changes nothing that the counters and tests are about. -/
theorem wake_core (hc : Core m nr nw) (hr : ∀ k, k ≠ .asleep → k ≠ .woken → nr' k = nr k)
    (hw : ∀ k, k ≠ .asleep → k ≠ .woken → nw' k = nw k)
    (hsum : nw' .asleep + nw' .woken = nw .asleep + nw .woken) : Core m nr' nw' := by
  have hreading : readingNo nr' = readingNo nr := by simp [readingNo, hr]
  have hcounted : countedNo nw' = countedNo nw := by simp [countedNo, hw]
  have hqueued : queuedNo nw' = queuedNo nw := by
    simp only [queuedNo, hw, ne_eq, reduceCtorEq, not_false_eq_true]
    omega
  have hholders : mutexHolders nr' nw' = mutexHolders nr nw := by simp [mutexHolders, hr, hw]
  obtain ⟨readers, writers, queue, mutex, changing, reader, writer, noReader, readerWaits,
    writerWaits⟩ := hc
  constructor <;>
    simpa only [hreading, hcounted, hqueued, hholders, hr, hw, ne_eq, reduceCtorEq,
      not_false_eq_true]

end Steps

/-! ## The invariant of the program -/

variable {R W : Type} [Fintype R] [Fintype W]

/-- The number of readers in a phase. -/
def State.nr (s : State R W) (k : RPhase) : ℕ :=
  count (fun r => (s.reader r).pc.phase) k

/-- The number of writers in a phase. -/
def State.nw (s : State R W) (k : WPhase) : ℕ :=
  count (fun w => (s.writer w).pc.phase) k

/-- **The invariant.** -/
structure Inv (s : State R W) : Prop where
  core : Core s.mem s.nr s.nw
  sleep : Sleep s.nr s.nw

/-- The invariant holds when `main` starts the threads. -/
theorem inv_start {s : State R W} (h : Start s) : Inv s := by
  have hr : ∀ k, k ≠ .idle → s.nr k = 0 := fun k hk =>
    count_eq_zero fun r => by rw [h.reader r]; exact hk.symm
  have hw : ∀ k, k ≠ .idle → s.nw k = 0 := fun k hk =>
    count_eq_zero fun w => by rw [h.writer w]; exact hk.symm
  refine ⟨?_, ?_⟩ <;> constructor <;>
    simp [readingNo, countedNo, queuedNo, mutexHolders, h.mutex, h.readers, h.writers,
      h.writersInQueue, hr, hw]

omit [Fintype W] in
/-- A broadcast turns sleeping readers into woken ones. -/
theorem nr_wakeAll (s : State R W) (k : RPhase) :
    s.wakeAll.nr k =
      if k = .asleep then 0 else if k = .woken then s.nr .woken + s.nr .asleep else s.nr k := by
  rw [State.nr, State.nr, State.nr, State.nr, ← count_redirect _ (by decide)]
  congr 1
  funext r
  simp only [State.wakeAll, RThread.wake]
  cases (s.reader r).pc <;> rfl

omit [Fintype R] in
/-- A broadcast turns sleeping writers into woken ones. -/
theorem nw_wakeAll (s : State R W) (k : WPhase) :
    s.wakeAll.nw k =
      if k = .asleep then 0 else if k = .woken then s.nw .woken + s.nw .asleep else s.nw k := by
  rw [State.nw, State.nw, State.nw, State.nw, ← count_redirect _ (by decide)]
  congr 1
  funext w
  simp only [State.wakeAll, WThread.wake]
  cases (s.writer w).pc <;> rfl

/-- After a broadcast nobody sleeps at all. -/
theorem inv_wakeAll {s : State R W} (hc : Core s.mem s.nr s.nw) : Inv s.wakeAll := by
  refine ⟨wake_core hc ?_ ?_ ?_, ?_, ?_⟩
  · intro k hasleep hwoken
    rw [nr_wakeAll, if_neg hasleep, if_neg hwoken]
  · intro k hasleep hwoken
    rw [nw_wakeAll, if_neg hasleep, if_neg hwoken]
  · simp [nw_wakeAll, Nat.add_comm]
  · simp [nr_wakeAll]
  · simp [nw_wakeAll]

variable [DecidableEq R] [DecidableEq W]

omit [Fintype W] [DecidableEq W] in
/-- A spurious wake-up moves one reader from the sleeping to the woken ones. -/
theorem nr_spurious (s : State R W) {r : R} (hpc : (s.reader r).pc = .asleep) (k : RPhase) :
    (s.setReader r s.mem (s.reader r).wake).nr k + (if RPhase.asleep = k then 1 else 0) =
      s.nr k + (if RPhase.woken = k then 1 else 0) := by
  have hold : (s.reader r).pc.phase = .asleep := by rw [hpc]; rfl
  have hnew : (s.reader r).wake.pc.phase = .woken := by simp [RThread.wake, hpc, RPc.phase]
  have move := count_update (fun t : RThread => t.pc.phase) s.reader r (s.reader r).wake k
  rw [hold, hnew] at move
  exact move

omit [Fintype R] [DecidableEq R] in
/-- A spurious wake-up moves one writer from the sleeping to the woken ones. -/
theorem nw_spurious (s : State R W) {w : W} (hpc : (s.writer w).pc = .asleep) (k : WPhase) :
    (s.setWriter w s.mem (s.writer w).wake).nw k + (if WPhase.asleep = k then 1 else 0) =
      s.nw k + (if WPhase.woken = k then 1 else 0) := by
  have hold : (s.writer w).pc.phase = .asleep := by rw [hpc]; rfl
  have hnew : (s.writer w).wake.pc.phase = .woken := by simp [WThread.wake, hpc, WPc.phase]
  have move := count_update (fun t : WThread => t.pc.phase) s.writer w (s.writer w).wake k
  rw [hold, hnew] at move
  exact move

/-- **The invariant holds in every reachable state.** -/
theorem inv_invariant (div : R → ℤ) : (program (W := W) div).system.Invariant Inv where
  init _ h := inv_start h
  step s a s' hI h := by
    obtain ⟨hc, hs⟩ := hI
    rcases step_cases h with ⟨r, o, hstep, -, rfl⟩ | ⟨w, rand, o, hstep, -, rfl⟩ |
      ⟨r, hpc, -, rfl⟩ | ⟨w, hpc, -, rfl⟩
    · have hpos : 0 < s.nr (s.reader r).pc.phase := count_pos (fun r => (s.reader r).pc.phase) r
      have move := count_update (fun t : RThread => t.pc.phase) s.reader r o.thread
      have hc' := reader_core hc hstep hpos move
      cases hb : o.broadcast with
      | true => exact inv_wakeAll (s := s.setReader r o.mem o.thread) hc'
      | false => exact ⟨hc', reader_sleep hc hs hstep hpos hb move⟩
    · have hpos : 0 < s.nw (s.writer w).pc.phase := count_pos (fun w => (s.writer w).pc.phase) w
      have move := count_update (fun t : WThread => t.pc.phase) s.writer w o.thread
      have hc' := writer_core hc hstep hpos move
      cases hb : o.broadcast with
      | true => exact inv_wakeAll (s := s.setWriter w o.mem o.thread) hc'
      | false => exact ⟨hc', writer_sleep hc hs hstep hpos hb move⟩
    · have hr : ∀ k, k ≠ .asleep → k ≠ .woken →
          (s.setReader r s.mem (s.reader r).wake).nr k = s.nr k := by
        intro k hasleep hwoken
        have := nr_spurious s hpc k
        rwa [if_neg hasleep.symm, if_neg hwoken.symm] at this
      have hdown := nr_spurious s hpc .asleep
      rw [if_pos rfl, if_neg (by decide)] at hdown
      refine ⟨wake_core hc hr (fun _ _ _ => rfl) rfl, fun hasleep => hs.reader (by omega), ?_⟩
      intro hasleep
      have := hs.writer hasleep
      simp only [readingNo, ne_eq, reduceCtorEq, not_false_eq_true, hr] at this ⊢
      exact this
    · have hw : ∀ k, k ≠ .asleep → k ≠ .woken →
          (s.setWriter w s.mem (s.writer w).wake).nw k = s.nw k := by
        intro k hasleep hwoken
        have := nw_spurious s hpc k
        rwa [if_neg hasleep.symm, if_neg hwoken.symm] at this
      have hdown := nw_spurious s hpc .asleep
      have hup := nw_spurious s hpc .woken
      rw [if_pos rfl, if_neg (by decide)] at hdown
      rw [if_neg (by decide), if_pos rfl] at hup
      refine ⟨wake_core hc (fun _ _ _ => rfl) hw (by omega), fun hasleep => ?_,
        fun hasleep => ?_⟩
      · have := hs.reader hasleep
        simp only [queuedNo, ne_eq, reduceCtorEq, not_false_eq_true, hw] at this ⊢
        omega
      · have := hs.writer (by omega)
        simp only [countedNo, ne_eq, reduceCtorEq, not_false_eq_true, hw] at this ⊢
        exact this

omit [Fintype W] [DecidableEq R] [DecidableEq W] in
/-- A reader between `readers++` and `readers--` is counted. -/
theorem readingNo_pos {s : State R W} {r : R} (h : (s.reader r).Reading) :
    0 < readingNo s.nr := by
  have hpos : 0 < s.nr (s.reader r).pc.phase := count_pos (fun r => (s.reader r).pc.phase) r
  unfold readingNo
  rcases h with hpc | hpc | hpc | hpc <;>
    · rw [hpc] at hpos
      simp only [RPc.phase] at hpos
      omega

omit [Fintype R] [DecidableEq R] [DecidableEq W] in
/-- A writer between `writersInQueue++` and `writersInQueue--` is counted. -/
theorem queuedNo_pos {s : State R W} {w : W} (h : (s.writer w).Queued) : 0 < queuedNo s.nw := by
  have hpos : 0 < s.nw (s.writer w).pc.phase := count_pos (fun w => (s.writer w).pc.phase) w
  obtain ⟨hlock, hinc, hbroadcast, hexit⟩ := h
  unfold queuedNo
  cases hpc : (s.writer w).pc
  case lock => exact absurd hpc hlock
  case incQueue => exact absurd hpc hinc
  case broadcast => exact absurd hpc hbroadcast
  case unlockExit => exact absurd hpc hexit
  all_goals
    rw [hpc] at hpos
    simp only [WPc.phase] at hpos
    omega

/-- A writer between `writers++` and `writers--`. -/
def WThread.Counted (t : WThread) : Prop :=
  t.pc.phase = .holdChanging ∨ t.pc.phase = .changing

omit [Fintype R] [DecidableEq R] [DecidableEq W] in
/-- A writer between `writers++` and `writers--` is counted. -/
theorem countedNo_pos {s : State R W} {w : W} (h : (s.writer w).Counted) : 0 < countedNo s.nw := by
  have hpos : 0 < s.nw (s.writer w).pc.phase := count_pos (fun w => (s.writer w).pc.phase) w
  unfold countedNo
  rcases h with h | h <;>
    · rw [h] at hpos
      omega

omit [DecidableEq R] in
/-- Two writers between `writers++` and `writers--` would both be counted. -/
theorem Inv.counted_unique {s : State R W} (hI : Inv s) {w w' : W} (hw : (s.writer w).Counted)
    (hw' : (s.writer w').Counted) : w = w' := by
  have hone := (hI.core.changing (countedNo_pos hw)).2
  by_contra hne
  have hpos : 0 < s.nw (s.writer w).pc.phase := count_pos (fun w => (s.writer w).pc.phase) w
  have hpos' : 0 < s.nw (s.writer w').pc.phase := count_pos (fun w => (s.writer w).pc.phase) w'
  have htwo : (s.writer w).pc.phase = (s.writer w').pc.phase →
      2 ≤ s.nw (s.writer w').pc.phase := fun heq => two_le_count hne heq rfl
  unfold countedNo at hone
  rcases hw with hw | hw <;> rcases hw' with hw' | hw' <;>
    · simp only [hw, hw', forall_const, reduceCtorEq, false_implies] at hpos hpos' htwo
      omega

omit [DecidableEq R] [DecidableEq W] in
/-- While a writer is counted, no reader is between `readers++` and `readers--`. -/
theorem Inv.no_reader {s : State R W} (hI : Inv s) {w : W} (hw : (s.writer w).Counted) (r : R) :
    ¬ (s.reader r).Reading := by
  intro hr
  have hzero := (hI.core.changing (countedNo_pos hw)).1
  have hreading := readingNo_pos hr
  omega

omit [DecidableEq R] [DecidableEq W] in
/-- A reader that is about to perform `readers++` has seen no writer in the queue. -/
theorem Inv.no_writer {s : State R W} (hI : Inv s) {r : R} (hr : (s.reader r).pc = .incReaders)
    (w : W) : ¬ (s.writer w).Queued := by
  intro hw
  have hpos : 0 < s.nr .admitted := by
    have := count_pos (fun r => (s.reader r).pc.phase) r
    rwa [hr] at this
  have hzero := hI.core.reader hpos
  have hqueued := queuedNo_pos hw
  omega

/-- **Mutual exclusion and preference for writers**: at most one writer is in the loop that
modifies the table, while one is, no reader is between its `readers++` and its `readers--`,
and no reader performs `readers++` while a writer is between its `writersInQueue++` and its
`writersInQueue--`.
SOURCE: cw09/zad1a/main.c:68-131 -/
theorem writers_first (div : R → ℤ) {s : State R W} (h : (program div).system.Reachable s) :
    (∀ w w', (s.writer w).Changing → (s.writer w').Changing → w = w') ∧
    (∀ w, (s.writer w).Changing → ∀ r, ¬ (s.reader r).Reading) ∧
    ∀ r, (s.reader r).pc = .incReaders → ∀ w, ¬ (s.writer w).Queued := by
  have hI := (inv_invariant div).reachable h
  have counted : ∀ w, (s.writer w).Changing → (s.writer w).Counted := by
    intro w hw
    right
    rw [show (s.writer w).pc = _ from hw]
    rfl
  refine ⟨?_, ?_, ?_⟩
  · intro w w' hw hw'
    exact hI.counted_unique (counted w hw) (counted w' hw')
  · intro w hw
    exact hI.no_reader (counted w hw)
  · exact fun r hr => hI.no_writer hr

/-- A writer in its loop keeps the reader and the second writer out. -/
theorem writers_first_after_entry :
    ∃ s : State (Fin 1) (Fin 2), (program fun _ => 1).system.Reachable s ∧
      (s.writer 0).Changing ∧ (∀ w, (s.writer w).Changing → w = 0) ∧
      (∀ r, ¬ (s.reader r).Reading) ∧ ∀ r, (s.reader r).pc ≠ .incReaders := by
  have h := Machine.exec_reachable (M := program (W := Fin 2) fun _ => 1)
    (start_startState (Fin 1) (Fin 2)) (List.replicate 7 (.writer 0 ⟨7, 3⟩)) (by decide)
  obtain ⟨hone, hnone, hfirst⟩ := writers_first (fun _ => 1) h
  have hin : ((((program (W := Fin 2) fun _ => 1).exec (startState (Fin 1) (Fin 2))
      (List.replicate 7 (.writer 0 ⟨7, 3⟩))).get (by decide)).2.writer 0).Changing := by decide
  exact ⟨_, h, hin, fun w hw => hone w 0 hw hin, hnone 0 hin,
    fun r hr => hfirst r hr 0 (by decide)⟩

end SystemyOperacyjne.CondReadersWriters
