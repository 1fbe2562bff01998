import SystemyOperacyjne.Analysis.WordSearchSteps
import SystemyOperacyjne.Library.Census

/-!
# Runs of the parallel search

What a thread comes to when it runs alone: it reads a batch, searches it, cancels the others.
The runs here report nothing, and are what counterexamples and ways out of a state are put
together from.
-/

set_option autoImplicit false

namespace SystemyOperacyjne.WordSearch

open Library

variable {T : ℕ} {c : Setting T} {s s' s'' : State T}

/-- A run that reports nothing leads from `s` to `s'`. -/
def Silently (c : Setting T) (s s' : State T) : Prop :=
  ∃ l, (program c).system.Run s l s' ∧ ∀ a ∈ l, a = none

/-- The empty run reports nothing. -/
theorem Silently.refl (s : State T) : Silently c s s :=
  ⟨[], .nil s, by simp⟩

/-- Nor do two runs that report nothing. -/
theorem Silently.trans (h : Silently c s s') (h' : Silently c s' s'') : Silently c s s'' := by
  obtain ⟨l, hrun, hl⟩ := h
  obtain ⟨l', hrun', hl'⟩ := h'
  refine ⟨l ++ l', hrun.append hrun', ?_⟩
  intro a ha
  rcases List.mem_append.mp ha with ha | ha
  · exact hl a ha
  · exact hl' a ha

/-- One step of a thread. -/
theorem Silently.run {t : Fin T} (h : WordSearch.run c s t = some (none, s')) : Silently c s s' :=
  ⟨[none], .single (step_run h), by simp⟩

/-- Only where a thread has gone last counts. -/
theorem State.setThread_setThread (t : Fin T) (th th' : Thread) :
    (s.setThread t th).setThread t th' = s.setThread t th' := by
  simp only [State.setThread, Function.update_idem]

/-- So it is with the points of the program. -/
theorem State.goto_goto (t : Fin T) (pc pc' : Pc) : (s.goto t pc).goto t pc' = s.goto t pc' := by
  unfold State.goto
  rw [State.setThread_self, State.setThread_setThread]

/-! ## A batch -/

/-- What a thread has read from record `p` on when it has read `n` records into the buffers from
`i` on. -/
structure HasRead (c : Setting T) (s s' : State T) (t : Fin T) (p i n : ℕ) : Prop where
  other : ∀ x, x ≠ t → s'.thread x = s.thread x
  mutex : s'.mutex = s.mutex
  offset : s'.offset = min c.file.length ((p + i + n) * BUFFSIZE)
  pc : (s'.thread t).pc = .read (i + n)
  cancelRequested : (s'.thread t).cancelRequested = (s.thread t).cancelRequested
  buffer : ∀ j, (s'.thread t).readingBuffer j = if i ≤ j ∧ j < i + n
    then ((s.thread t).readingBuffer j).overlay c.file (p + j)
    else (s.thread t).readingBuffer j
  charsReaded : (s'.thread t).charsReaded = if n = 0 then (s.thread t).charsReaded
    else (recordAt c.file (p + i + n - 1)).length

/-- **A thread reads its batch.** The induction is on the records left to read; what is in the
buffers is as the reads so far have left it. -/
theorem reading_run {t : Fin T} {p i : ℕ} (n : ℕ) (hpc : (s.thread t).pc = .read i)
    (hoffset : s.offset = min c.file.length ((p + i) * BUFFSIZE))
    (hn : i + n ≤ c.recordsNo)
    (hlive : ¬ (c.version = .two ∧ (s.thread t).cancelRequested = true)) :
    ∃ s', Silently c s s' ∧ HasRead c s s' t p i n := by
  induction n with
  | zero =>
    refine ⟨s, .refl s, ?_⟩
    constructor
    · exact fun _ _ => rfl
    · rfl
    · exact hoffset
    · exact hpc
    · rfl
    · intro j
      rw [if_neg (by omega)]
    · rfl
  | succ n ih =>
    obtain ⟨s₁, hrun, h⟩ := ih (by omega)
    have hstep : run c s₁ t =
        some (none, (s₁.readRecord c.file t (i + n)).goto t (.read (i + n + 1))) := by
      apply run_read h.pc (by omega)
      rw [h.cancelRequested]
      exact hlive
    have hread := readInto h.offset t (i + n)
    refine ⟨_, hrun.trans (.run hstep), ?_⟩
    constructor
    · intro x hx
      rw [hread.of_ne x hx]
      exact h.other x hx
    · exact hread.mutex.trans h.mutex
    · exact hread.offset
    · exact hread.pc
    · exact hread.cancelRequested.trans h.cancelRequested
    · intro j
      by_cases hj : j = i + n
      · subst hj
        rw [hread.buffer, h.buffer, if_neg (by omega), if_pos (by omega), Nat.add_assoc]
      · rw [hread.buffer_of_ne hj, h.buffer]
        by_cases hin : i ≤ j ∧ j < i + n
        · rw [if_pos hin, if_pos (by omega)]
        · rw [if_neg hin, if_neg (by omega)]
    · rw [hread.charsReaded, if_neg (Nat.succ_ne_zero n)]
      rfl

/-- **A thread searches its batch**: in vain, or it finds the word. -/
theorem searching_run {t : Fin T} {i : ℕ} (hi : i ≤ c.recordsNo)
    (hpc : (s.thread t).pc = .search i) :
    (Silently c s (s.goto t (.loopEnd true)) ∧ ∀ j, i ≤ j → j < c.recordsNo →
      strstr ((s.thread t).readingBuffer j).bytes c.word = false) ∨
    ∃ j, Silently c s (s.goto t (.print j)) ∧ j < c.recordsNo ∧
      strstr ((s.thread t).readingBuffer j).bytes c.word = true := by
  induction hn : c.recordsNo - i generalizing s i with
  | zero =>
    refine .inl ⟨.run (run_searched hpc (by omega)), ?_⟩
    intro j hj hlt
    omega
  | succ n ih =>
    cases hhit : strstr ((s.thread t).readingBuffer i).bytes c.word with
    | true => exact .inr ⟨i, .run (run_found hpc (by omega) hhit), by omega, hhit⟩
    | false =>
      have hstep := run_missed hpc (by omega) hhit
      have hrest := ih (s := s.goto t (.search (i + 1))) (i := i + 1) (by omega)
        (by rw [State.goto_self]) (by omega)
      rw [State.goto_goto, State.goto_self] at hrest
      rcases hrest with ⟨hrun, hmiss⟩ | ⟨j, hrun, hj, hfound⟩
      · refine .inl ⟨(Silently.run hstep).trans hrun, ?_⟩
        intro j hj hlt
        by_cases hji : j = i
        · rw [hji]
          exact hhit
        · exact hmiss j (by omega) hlt
      · rw [State.goto_goto] at hrun
        exact .inr ⟨j, (Silently.run hstep).trans hrun, hj, hfound⟩

/-- The thread is back at the mutex when it has searched its batch in vain. -/
theorem round_run {t : Fin T} (hv : c.version ≠ .three) (hpc : (s.thread t).pc = .search 0) :
    (Silently c s (s.goto t .lock) ∧ ∀ j, j < c.recordsNo →
      strstr ((s.thread t).readingBuffer j).bytes c.word = false) ∨
    ∃ j, Silently c s (s.goto t (.print j)) ∧ j < c.recordsNo ∧
      strstr ((s.thread t).readingBuffer j).bytes c.word = true := by
  rcases searching_run (Nat.zero_le _) hpc with ⟨hsearch, hmiss⟩ | hfound
  · have hagain : run c (s.goto t (.loopEnd true)) t = some (none, s.goto t .lock) := by
      rw [run_again (by rw [State.goto_self]) hv, State.goto_goto]
    exact .inl ⟨hsearch.trans (.run hagain), fun j hj => hmiss j (Nat.zero_le j) hj⟩
  · exact .inr hfound

/-! ## From the mutex to the search -/

/-- Thread `t` has taken batch `k` of the file: its buffers are overlaid with the records of the
batch, and the offset is behind them. -/
structure HasBatch (c : Setting T) (s s' : State T) (t : Fin T) (k : ℕ) : Prop where
  other : ∀ x, x ≠ t → s'.thread x = s.thread x
  offset : s'.offset = min c.file.length ((k + 1) * c.recordsNo * BUFFSIZE)
  cancelRequested : (s'.thread t).cancelRequested = (s.thread t).cancelRequested
  buffer : ∀ j, j < c.recordsNo → (s'.thread t).readingBuffer j =
    ((s.thread t).readingBuffer j).overlay c.file (k * c.recordsNo + j)

/-- A thread takes its batch wherever it goes. -/
theorem HasBatch.goto {t : Fin T} {k : ℕ} {pc : Pc} (h : HasBatch c s s' t k)
    (hthread : s''.thread = (s'.goto t pc).thread) (hoffset : s''.offset = s'.offset) :
    HasBatch c s s'' t k := by
  constructor
  · intro x hx
    rw [hthread, State.goto_of_ne hx]
    exact h.other x hx
  · rw [hoffset]
    exact h.offset
  · rw [hthread, State.goto_self]
    exact h.cancelRequested
  · intro j hj
    rw [hthread, State.goto_self]
    exact h.buffer j hj

/-- **A thread takes a batch.** -/
theorem taking_run {t : Fin T} {k : ℕ} (hpc : (s.thread t).pc = .lock) (hfree : s.mutex = none)
    (hlive : (s.thread t).cancelRequested = false)
    (hoffset : s.offset = min c.file.length (k * c.recordsNo * BUFFSIZE)) :
    ∃ s', Silently c s s' ∧ HasBatch c s s' t k ∧ s'.mutex = some t ∧
      (s'.thread t).pc = .read c.recordsNo ∧
      (s'.thread t).charsReaded = if c.recordsNo = 0 then (s.thread t).charsReaded
        else (recordAt c.file (k * c.recordsNo + c.recordsNo - 1)).length := by
  have hstep : run c s t = some (none, { s.goto t (.read 0) with mutex := some t }) :=
    run_lock hpc hfree
  have hself : ({ s.goto t (.read 0) with mutex := some t } : State T).thread t =
      { s.thread t with pc := .read 0 } := State.goto_self ..
  obtain ⟨s', hrun, h⟩ := reading_run (c := c) (s := { s.goto t (.read 0) with mutex := some t })
    (t := t) (p := k * c.recordsNo) (i := 0) c.recordsNo (by rw [hself]) hoffset (by omega)
    (by rw [hself]; simp [hlive])
  refine ⟨s', (Silently.run hstep).trans hrun, ?_, ?_, ?_, ?_⟩
  · constructor
    · intro x hx
      rw [h.other x hx]
      exact State.goto_of_ne hx _
    · rw [h.offset, Nat.succ_mul, Nat.add_zero]
    · rw [h.cancelRequested, hself]
    · intro j hj
      rw [h.buffer j, if_pos (by omega), hself]
  · exact h.mutex
  · rw [h.pc, Nat.zero_add]
  · rw [h.charsReaded, hself, Nat.add_zero]

/-- In version 2 the thread releases the mutex and begins to search. -/
theorem batch_run_two (hv : c.version = .two) {t : Fin T} {k : ℕ} (hpc : (s.thread t).pc = .lock)
    (hfree : s.mutex = none) (hlive : (s.thread t).cancelRequested = false)
    (hoffset : s.offset = min c.file.length (k * c.recordsNo * BUFFSIZE)) :
    ∃ s', Silently c s s' ∧ HasBatch c s s' t k ∧ s'.mutex = none ∧
      (s'.thread t).pc = .search 0 := by
  obtain ⟨s₁, hrun, h, -, hread, -⟩ := taking_run hpc hfree hlive hoffset
  have hfirst : run c s₁ t = some (none, s₁.goto t .unlock) := by
    rw [run_readAll hread, if_neg (by rw [hv]; decide)]
  have hsecond : run c (s₁.goto t .unlock) t =
      some (none, { s₁.goto t .pause with mutex := none }) := by
    rw [run_unlock (by rw [State.goto_self]), if_pos hv, State.goto_goto]
  have hthird : run c { s₁.goto t .pause with mutex := none } t =
      some (none, { s₁.goto t (.search 0) with mutex := none }) := by
    have hself : ({ s₁.goto t .pause with mutex := none } : State T).thread t =
        { s₁.thread t with pc := .pause } := State.goto_self ..
    rw [run_pause (by rw [hself]) (by rw [hself]; exact h.cancelRequested.trans hlive)]
    show some (none, { (s₁.goto t .pause).goto t (.search 0) with mutex := none }) = _
    rw [State.goto_goto]
  refine ⟨_, hrun.trans ((Silently.run hfirst).trans ((Silently.run hsecond).trans
    (.run hthird))), ?_, rfl, ?_⟩
  · apply h.goto
    · rfl
    · rfl
  · show ((s₁.goto t (.search 0)).thread t).pc = _
    rw [State.goto_self]

/-- In version 1 the thread releases the mutex and begins to search, if its last read was one
of something. -/
theorem batch_run_one (hv : c.version = .one) {t : Fin T} {k : ℕ} (hpc : (s.thread t).pc = .lock)
    (hfree : s.mutex = none) (hlive : (s.thread t).cancelRequested = false)
    (hoffset : s.offset = min c.file.length (k * c.recordsNo * BUFFSIZE))
    (hpos : 0 < c.recordsNo)
    (hsome : recordAt c.file (k * c.recordsNo + c.recordsNo - 1) ≠ []) :
    ∃ s', Silently c s s' ∧ HasBatch c s s' t k ∧ s'.mutex = none ∧
      (s'.thread t).pc = .search 0 := by
  obtain ⟨s₁, hrun, h, -, hread, hchars⟩ := taking_run hpc hfree hlive hoffset
  rw [if_neg (by omega)] at hchars
  have hfirst : run c s₁ t = some (none, s₁.goto t .testEof) := by
    rw [run_readAll hread, if_pos hv]
  have hsecond : run c (s₁.goto t .testEof) t = some (none, s₁.goto t .unlock) := by
    rw [run_notEof (by rw [State.goto_self]), State.goto_goto]
    rw [State.goto_self, hchars]
    intro hnil
    exact hsome (List.eq_nil_of_length_eq_zero (by exact_mod_cast hnil))
  have hthird : run c (s₁.goto t .unlock) t =
      some (none, { s₁.goto t (.search 0) with mutex := none }) := by
    rw [run_unlock (by rw [State.goto_self]), if_neg (by rw [hv]; decide), State.goto_goto]
  refine ⟨_, hrun.trans ((Silently.run hfirst).trans ((Silently.run hsecond).trans
    (.run hthird))), ?_, rfl, ?_⟩
  · apply h.goto
    · rfl
    · rfl
  · show ((s₁.goto t (.search 0)).thread t).pc = _
    rw [State.goto_self]

/-! ## Cancelling the others -/

/-- Thread `t` has called `pthread_cancel` for the other threads from `j` on. -/
structure HasCancelled (s s' : State T) (t : Fin T) (j : ℕ) : Prop where
  mutex : s'.mutex = s.mutex
  pc : ∀ x, x ≠ t → (s'.thread x).pc = (s.thread x).pc
  kept : ∀ x, (s.thread x).cancelRequested = true → (s'.thread x).cancelRequested = true
  requested : ∀ x, x ≠ t → j ≤ x.val → (s'.thread x).cancelRequested = true

/-- **A loop of `pthread_cancel`** runs through. -/
theorem cancelling_run {t : Fin T} (loop : ℕ → Pc)
    (hstep : ∀ (s : State T) (j : ℕ) (hj : j < T), (s.thread t).pc = loop j →
      run c s t = some (none, (s.cancelOther t ⟨j, hj⟩).goto t (loop (j + 1))))
    {j : ℕ} (hle : j ≤ T) (hpc : (s.thread t).pc = loop j) :
    ∃ s', Silently c s s' ∧ HasCancelled s s' t j ∧ (s'.thread t).pc = loop T := by
  induction hn : T - j generalizing s j with
  | zero =>
    have hj : j = T := by omega
    refine ⟨s, .refl s, ?_, ?_⟩
    · constructor
      · rfl
      · exact fun _ _ => rfl
      · exact fun _ h => h
      · intro x _ hx
        have hlt := x.isLt
        omega
    · rw [hpc, hj]
  | succ n ih =>
    have hj : j < T := by omega
    obtain ⟨s', hrun, h, hend⟩ := ih
      (s := (s.cancelOther t ⟨j, hj⟩).goto t (loop (j + 1))) (j := j + 1) hj
      (by rw [State.goto_self]) (by omega)
    refine ⟨s', (Silently.run (hstep s j hj hpc)).trans hrun, ?_, hend⟩
    constructor
    · rw [h.mutex, State.goto_mutex, State.cancelOther_mutex]
    · intro x hx
      rw [h.pc x hx, State.goto_of_ne hx, State.cancelOther_pc]
    · intro x hreq
      apply h.kept
      rw [State.goto_cancelRequested, State.cancelOther_thread]
      split
      · rfl
      · exact hreq
    · intro x hx hle
      by_cases hxj : x.val = j
      · apply h.kept
        rw [State.goto_cancelRequested, State.cancelOther_thread, if_pos]
        have hxj' : x = ⟨j, hj⟩ := Fin.ext hxj
        exact ⟨hxj', fun hjt => hx (hxj'.trans hjt)⟩
      · exact h.requested x hx (by omega)

end SystemyOperacyjne.WordSearch
