import SystemyOperacyjne.Library.Census
import SystemyOperacyjne.Model.SemReadersWriters
import Mathlib.Tactic.Linarith

/-!
# The token invariant of the semaphore version

The permit of `semCheck` is a token that one thread holds, or that lies in `semCheck`
or, during a hand-over, in `semWait`: the last reader posts `semWait` and keeps
`semCheck`, and the writer that was waiting goes on with the token and posts `semCheck`
when it is done. Program points at which a thread stands in the same way to the token and
to the counters form one phase. The invariant is about the shared memory and the number
of threads in each phase only, so that one step of one thread out of any number of them
is linear arithmetic in these numbers.
-/

set_option autoImplicit false

namespace SystemyOperacyjne.SemReadersWriters

open Library

/-- The phases of a reader. -/
inductive RPhase
  | idle | token | tokenReading | reading | testReaders | testWriters | handing
  deriving DecidableEq, Repr

/-- The phases of a writer. -/
inductive WPhase
  | idle | writer | token | tokenCounted | releasing | waiting | changing
  deriving DecidableEq, Repr

/-- The phase of a reader's program point. -/
def RPc.phase : RPc → RPhase
  | .waitCheck => .idle
  | .incReaders | .postCheckExit => .token
  | .postCheck | .decReaders => .tokenReading
  | .scan | .waitCheckExit => .reading
  | .testReaders => .testReaders
  | .testWriters => .testWriters
  | .postWait => .handing

/-- The phase of a writer's program point. -/
def WPc.phase : WPc → WPhase
  | .waitWriter => .idle
  | .waitCheck | .postWriter => .writer
  | .incWriters | .postCheck => .token
  | .testReaders => .tokenCounted
  | .releaseCheck => .releasing
  | .waitWait => .waiting
  | .randAmount | .change | .decWriters => .changing

section Numbers

variable (m : Shared) (nr : RPhase → ℕ) (nw : WPhase → ℕ)

/-- The number of readers between `readers++` and `readers--`. -/
def readingNo : ℕ :=
  nr .tokenReading + nr .reading

/-- The number of writers between `writers++` and `writers--`. -/
def countedNo : ℕ :=
  nw .tokenCounted + nw .releasing + nw .waiting + nw .changing

/-- The number of threads that hold the token: they took the permit of `semCheck`, or it
was handed to them through `semWait`, and they have not given it on. -/
def checkHolders : ℕ :=
  nr .token + nr .tokenReading + nr .testReaders + nr .testWriters + nr .handing + nw .token +
    nw .tokenCounted + nw .releasing + nw .changing

/-- The number of writers that hold the permit of `semWriter`. -/
def writerHolders : ℕ :=
  nw .writer + nw .token + nw .tokenCounted + nw .releasing + nw .waiting + nw .changing

/-- **Permits**: the counters count, and no permit of `semCheck` or `semWriter` is lost or
doubled. -/
structure Permits : Prop where
  readers : m.readers = readingNo nr
  writers : m.writers = countedNo nw
  check : m.semCheck + m.semWait + checkHolders nr nw = 1
  writer : m.semWriter + writerHolders nw = 1

/-- **Hand-over**: what each program point on the way to and from `semWait` knows. -/
structure Handover : Prop where
  handed : 0 < m.semWait + nr .handing → readingNo nr = 0 ∧ nw .waiting = 1
  last : 0 < nr .testWriters → readingNo nr = 0
  release : 0 < nw .releasing → 0 < readingNo nr
  changing : 0 < nw .changing → readingNo nr = 0
  waiting : nw .waiting ≤
    m.semWait + readingNo nr + nr .testReaders + nr .testWriters + nr .handing

end Numbers

section Steps

variable {m m' : Shared} {nr nr' : RPhase → ℕ} {nw nw' : WPhase → ℕ}

/-- A reader's step loses no permit, doubles none, and keeps the hand-over. The cases are
the program points of `rFunc`. -/
theorem reader_keeps {div : ℤ} {t t' : RThread} (hp : Permits m nr nw) (hh : Handover m nr nw)
    (h : rFunc div m t = some (m', t')) (hpos : 0 < nr t.pc.phase)
    (move : ∀ k, nr' k + (if t.pc.phase = k then 1 else 0) =
      nr k + (if t'.pc.phase = k then 1 else 0)) :
    Permits m' nr' nw ∧ Handover m' nr' nw := by
  obtain ⟨readers, writers, check, writer⟩ := hp
  obtain ⟨handed, last, release, changing, waiting⟩ := hh
  have h1 := move .token
  have h2 := move .tokenReading
  have h3 := move .reading
  have h4 := move .testReaders
  have h5 := move .testWriters
  have h6 := move .handing
  clear move
  simp only [readingNo, checkHolders]
    at readers check handed last release changing waiting
  have writers' := writers
  have writer' := writer
  simp only [countedNo, writerHolders] at writers' writer'
  cases hpc : t.pc
  all_goals simp only [rFunc, hpc] at h hpos h1 h2 h3 h4 h5 h6
  -- where the thread goes, and what it does to the shared memory
  case' waitCheck =>
    obtain ⟨v, hv, h⟩ := Option.map_eq_some_iff.mp h
    rw [Semaphore.wait_eq_some] at hv
  case' waitCheckExit =>
    obtain ⟨v, hv, h⟩ := Option.map_eq_some_iff.mp h
    rw [Semaphore.wait_eq_some] at hv
  case' scan => split at h
  case' testReaders => split at h
  case' testWriters => split at h
  all_goals
    cases h
    simp only [RPc.phase, reduceCtorEq, if_true, if_false] at hpos h1 h2 h3 h4 h5 h6
    refine ⟨⟨?_, writers, ?_, writer⟩, ⟨?_, ?_, ?_, ?_, ?_⟩⟩ <;>
      simp only [readingNo, checkHolders, Semaphore.post] <;>
      lia

/-- A writer's step loses no permit, doubles none, and keeps the hand-over. The cases are
the program points of `wFunc`. -/
theorem writer_keeps {rand : Rand} {t t' : WThread} (hp : Permits m nr nw)
    (hh : Handover m nr nw) (h : wFunc rand m t = some (m', t')) (hpos : 0 < nw t.pc.phase)
    (move : ∀ k, nw' k + (if t.pc.phase = k then 1 else 0) =
      nw k + (if t'.pc.phase = k then 1 else 0)) :
    Permits m' nr nw' ∧ Handover m' nr nw' := by
  obtain ⟨readers, writers, check, writer⟩ := hp
  obtain ⟨handed, last, release, changing, waiting⟩ := hh
  have h1 := move .writer
  have h2 := move .token
  have h3 := move .tokenCounted
  have h4 := move .releasing
  have h5 := move .waiting
  have h6 := move .changing
  clear move
  simp only [readingNo, countedNo, checkHolders, writerHolders]
    at writers check writer handed release changing waiting
  have readers' := readers
  simp only [readingNo] at readers'
  cases hpc : t.pc
  all_goals simp only [wFunc, hpc] at h hpos h1 h2 h3 h4 h5 h6
  case' waitWriter =>
    obtain ⟨v, hv, h⟩ := Option.map_eq_some_iff.mp h
    rw [Semaphore.wait_eq_some] at hv
  case' waitCheck =>
    obtain ⟨v, hv, h⟩ := Option.map_eq_some_iff.mp h
    rw [Semaphore.wait_eq_some] at hv
  case' waitWait =>
    obtain ⟨v, hv, h⟩ := Option.map_eq_some_iff.mp h
    rw [Semaphore.wait_eq_some] at hv
  case' testReaders => split at h
  case' change => split at h
  all_goals
    cases h
    simp only [WPc.phase, reduceCtorEq, if_true, if_false] at hpos h1 h2 h3 h4 h5 h6
    refine ⟨⟨readers, ?_, ?_, ?_⟩, ⟨?_, last, ?_, ?_, ?_⟩⟩ <;>
      simp only [readingNo, countedNo, checkHolders, writerHolders, Semaphore.post] <;>
      lia

end Steps

/-! ## The invariant of the program -/

variable {R W : Type} [Fintype R] [Fintype W]

/-- The number of readers in a phase. -/
def State.nr (s : State R W) (k : RPhase) : ℕ :=
  count (fun r => (s.reader r).pc.phase) k

/-- The number of writers in a phase. -/
def State.nw (s : State R W) (k : WPhase) : ℕ :=
  count (fun w => (s.writer w).pc.phase) k

/-- **The token invariant.** -/
structure Inv (s : State R W) : Prop where
  permits : Permits s.mem s.nr s.nw
  handover : Handover s.mem s.nr s.nw

/-- The invariant holds when nobody holds anything. -/
theorem inv_idle {s : State R W} (h : Idle s) : Inv s := by
  have hr : ∀ k, k ≠ .idle → s.nr k = 0 := fun k hk =>
    count_eq_zero fun r => by rw [h.reader r]; exact hk.symm
  have hw : ∀ k, k ≠ .idle → s.nw k = 0 := fun k hk =>
    count_eq_zero fun w => by rw [h.writer w]; exact hk.symm
  refine ⟨?_, ?_⟩ <;> constructor <;>
    simp [readingNo, countedNo, checkHolders, writerHolders, h.semWait, h.semWriter, h.semCheck,
      h.readers, h.writers, hr, hw]

variable [DecidableEq R] [DecidableEq W]

/-- **The token invariant holds in every reachable state.** -/
theorem inv_invariant (div : R → ℤ) : (program (W := W) div).system.Invariant Inv where
  init _ h := inv_idle h
  step s a s' hI h := by
    rcases step_cases h with ⟨r, m, t, hstep, -, rfl⟩ | ⟨w, rand, m, t, hstep, -, rfl⟩
    · have hpos : 0 < s.nr (s.reader r).pc.phase := count_pos (fun r => (s.reader r).pc.phase) r
      have move := count_update (fun t : RThread => t.pc.phase) s.reader r t
      obtain ⟨hp, hh⟩ := reader_keeps hI.permits hI.handover hstep hpos move
      exact ⟨hp, hh⟩
    · have hpos : 0 < s.nw (s.writer w).pc.phase := count_pos (fun w => (s.writer w).pc.phase) w
      have move := count_update (fun t : WThread => t.pc.phase) s.writer w t
      obtain ⟨hp, hh⟩ := writer_keeps hI.permits hI.handover hstep hpos move
      exact ⟨hp, hh⟩

omit [DecidableEq R] in
/-- Two writers that change the table would hold two tokens. -/
theorem Inv.changing_unique {s : State R W} (hI : Inv s) {w w' : W}
    (hw : (s.writer w).pc.phase = .changing) (hw' : (s.writer w').pc.phase = .changing) :
    w = w' := by
  have hcheck := hI.permits.check
  by_contra hne
  have htwo : 2 ≤ s.nw .changing := two_le_count hne hw hw'
  simp only [checkHolders] at hcheck
  omega

omit [DecidableEq R] [DecidableEq W] in
/-- While a writer changes the table, no reader is between `readers++` and `readers--`. -/
theorem Inv.no_reader {s : State R W} (hI : Inv s) {w : W}
    (hw : (s.writer w).pc.phase = .changing) (r : R) : ¬ (s.reader r).Reading := by
  intro hr
  have hone : 0 < s.nw .changing := by
    have := count_pos (fun w => (s.writer w).pc.phase) w
    rwa [hw] at this
  have hzero := hI.handover.changing hone
  have hreading : 0 < s.nr (s.reader r).pc.phase := count_pos (fun r => (s.reader r).pc.phase) r
  simp only [readingNo] at hzero
  rcases hr with hr | hr | hr | hr <;>
    · rw [hr] at hreading
      simp only [RPc.phase] at hreading
      omega

omit [DecidableEq R] [DecidableEq W] in
/-- A reader that is about to perform `readers++` holds the token a changing writer would
hold. -/
theorem Inv.no_writer {s : State R W} (hI : Inv s) {r : R}
    (hr : (s.reader r).pc = .incReaders) (w : W) : (s.writer w).pc.phase ≠ .changing := by
  intro hw
  have hcheck := hI.permits.check
  have hone : 0 < s.nw .changing := by
    have := count_pos (fun w => (s.writer w).pc.phase) w
    rwa [hw] at this
  have htoken : 0 < s.nr .token := by
    have := count_pos (fun r => (s.reader r).pc.phase) r
    rwa [hr] at this
  simp only [checkHolders] at hcheck
  omega

/-- **Mutual exclusion**: at most one writer is in the loop that modifies the table, and
while one is, no reader is between its `readers++` and its `readers--`.
SOURCE: cw09/zad1b/main.c:72-136 -/
theorem writer_excludes_all (div : R → ℤ) {s : State R W}
    (h : (program div).system.Reachable s) :
    (∀ w w', (s.writer w).Changing → (s.writer w').Changing → w = w') ∧
    ∀ w, (s.writer w).Changing → ∀ r, ¬ (s.reader r).Reading := by
  have hI := (inv_invariant div).reachable h
  have phase : ∀ w, (s.writer w).Changing → (s.writer w).pc.phase = .changing := by
    intro w hw
    rw [show (s.writer w).pc = _ from hw]
    rfl
  constructor
  · intro w w' hw hw'
    exact hI.changing_unique (phase w hw) (phase w' hw')
  · intro w hw
    exact hI.no_reader (phase w hw)

/-- The first of two writers takes both permits and enters its loop; the second writer and
the reader are then outside theirs. -/
theorem writer_excludes_all_after_entry :
    ∃ s : State (Fin 1) (Fin 2), (program fun _ => 1).system.Reachable s ∧
      (s.writer 0).Changing ∧ (∀ w, (s.writer w).Changing → w = 0) ∧
      ∀ r, ¬ (s.reader r).Reading := by
  have h := Machine.exec_reachable (M := program (W := Fin 2) fun _ => 1)
    (idle_idleState (Fin 1) (Fin 2)) (List.replicate 5 (.writer 0 ⟨7, 3⟩)) (by decide)
  obtain ⟨hone, hnone⟩ := writer_excludes_all (fun _ => 1) h
  have hin : ((((program (W := Fin 2) fun _ => 1).exec (idleState (Fin 1) (Fin 2))
      (List.replicate 5 (.writer 0 ⟨7, 3⟩))).get (by decide)).2.writer 0).Changing := by decide
  exact ⟨_, h, hin, fun w hw => hone w 0 hw hin, hnone 0 hin⟩

end SystemyOperacyjne.SemReadersWriters
