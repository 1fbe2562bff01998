import SystemyOperacyjne.Analysis.WordSearchReports

/-!
# What is reported is true

In every version, whichever threads are cancelled and wherever they die: what a thread reports is a
record of the file in which the word can be seen, and no record is reported twice. Every record is
read into one buffer of one thread at most, and a thread that has reported a buffer does not come
to print it again.
-/

set_option autoImplicit false

namespace SystemyOperacyjne.WordSearch

open Library

variable {T : ℕ} {c : Setting T} {s s' : State T} {e : Option (Report T)}
  {l : List (Option (Report T))} {k : ℕ}

/-- From here a thread may still come to print buffer `i`. -/
def Pc.mayPrint (v : Version) (i : ℕ) : Pc → Prop
  | .cancel _ | .loopEnd false | .returned | .cancelled => False
  | .loopEnd true => v ≠ .three
  | .search j | .print j => v = .three → j ≤ i
  | _ => True

/-- A report is about a record of the file in which the word can be seen; with the empty word, it
may be about a buffer into which nothing has been read. -/
def Report.Right (c : Setting T) (report : Report T) : Prop :=
  (∀ r, report.buffer.record = some r → r < c.records ∧
    report.buffer.bytes = recordAt c.file r ∧ c.Visible r) ∧
  (report.buffer.record = none → c.word = [])

/-- **Buffers and reports**, when `k` reads have been made. -/
structure Truthful (c : Setting T) (k : ℕ) (l : List (Option (Report T))) (s : State T) :
    Prop where
  offset : s.offset = min c.file.length (k * BUFFSIZE)
  length : ∀ t i, ((s.thread t).readingBuffer i).bytes.length = BUFFSIZE
  hit : ∀ t i, (s.thread t).pc = .print i →
    strstr ((s.thread t).readingBuffer i).bytes c.word = true
  content : ∀ t i r, s.recordIn t i = some r →
    r < k ∧ r < c.records ∧ ((s.thread t).readingBuffer i).bytes = recordAt c.file r
  empty : ∀ t i, s.recordIn t i = none →
    ((s.thread t).readingBuffer i).bytes = List.replicate BUFFSIZE 0
  once : ∀ t i t' i' r, s.recordIn t i = some r → s.recordIn t' i' = some r → t = t' ∧ i = i'
  atMost : ∀ r, timesReported l r ≤ 1
  unread : ∀ r, k ≤ r → timesReported l r = 0
  printed : ∀ t i r, s.recordIn t i = some r → timesReported l r = 1 →
    ¬ (s.thread t).pc.mayPrint c.version i
  right : ∀ report, some report ∈ l → report.Right c

/-- Nothing has been read and nothing reported in the beginning. -/
theorem truthful_start : Truthful c 0 [] (start c) := by
  constructor
  · simp [start]
  · intro t i
    exact List.length_replicate
  · intro t i h
    cases h
  · intro t i r h
    cases h
  · intro t i _
    rfl
  · intro t i t' i' r h
    cases h
  · intro r
    exact Nat.zero_le 1
  · intro r _
    rfl
  · intro t i r h
    cases h
  · simp

/-- In a buffer of zeros only the empty word is found. -/
theorem eq_nil_of_strstr_zeros {n : ℕ} {word : List UInt8}
    (h : strstr (List.replicate n 0) word = true) : word = [] := by
  have hzeros : (List.replicate n (0 : UInt8)).takeWhile (fun b => b ≠ 0) = [] := by
    cases n <;> rfl
  unfold strstr at h
  rw [hzeros] at h
  exact List.infix_nil.mp (of_decide_eq_true h)

/-! ## What a step does -/

/-- **A thread that will not print a buffer any more** does not come back to it. -/
theorem Goto.mayPrint {t : Fin T} {pc : Pc} (move : Goto c s t pc) {i : ℕ}
    (h : pc.mayPrint c.version i) : (s.thread t).pc.mayPrint c.version i := by
  cases move with
  | dieReading | diePausing | die | finish | cancelledAll => exact absurd h id
  | readAll hpc | eof hpc | notEof hpc | eofCancelled hpc | paused hpc =>
    rw [hpc]
    trivial
  | found hpc =>
    rw [hpc]
    exact h
  | missed hpc =>
    rw [hpc]
    intro hv
    exact Nat.le_of_succ_le (h hv)
  | searched hpc =>
    rw [hpc]
    intro hv
    exact absurd hv h
  | again hpc hv =>
    rw [hpc]
    exact hv

/-- The threads and their buffers, when one of them has gone elsewhere and others may have been
cancelled. -/
structure Moves (s s' : State T) (t : Fin T) (pc : Pc) : Prop where
  offset : s'.offset = s.offset
  buffers : ∀ x, (s'.thread x).readingBuffer = (s.thread x).readingBuffer
  self : (s'.thread t).pc = pc
  others : ∀ x, x ≠ t → (s'.thread x).pc = (s.thread x).pc

/-- A thread has gone elsewhere. -/
theorem moves_goto (s : State T) (t : Fin T) (pc : Pc) : Moves s (s.goto t pc) t pc := by
  constructor
  · rfl
  · simp
  · simp
  · intro x hx
    rw [State.goto_of_ne hx]

/-- And another one may have been cancelled. -/
theorem moves_cancelOther (s : State T) (t j : Fin T) (pc : Pc) :
    Moves s ((s.cancelOther t j).goto t pc) t pc := by
  constructor
  · simp
  · simp
  · simp
  · intro x hx
    rw [State.goto_of_ne hx, State.cancelOther_pc]

/-- **A thread goes elsewhere in silence.** -/
theorem Truthful.moves (h : Truthful c k l s) {t : Fin T} {pc : Pc} (hmoves : Moves s s' t pc)
    (hhit : ∀ i, pc = .print i → strstr ((s.thread t).readingBuffer i).bytes c.word = true)
    (hmay : ∀ i, pc.mayPrint c.version i → (s.thread t).pc.mayPrint c.version i) :
    Truthful c k (l ++ [none]) s' := by
  have hrecord : ∀ x i, s'.recordIn x i = s.recordIn x i := by
    intro x i
    unfold State.recordIn
    rw [hmoves.buffers]
  constructor
  · rw [hmoves.offset]
    exact h.offset
  · intro x i
    rw [hmoves.buffers]
    exact h.length x i
  · intro x i hi
    rw [hmoves.buffers]
    by_cases hx : x = t
    · subst hx
      exact hhit i (hmoves.self.symm.trans hi)
    · rw [hmoves.others x hx] at hi
      exact h.hit x i hi
  · intro x i r hr
    rw [hmoves.buffers]
    exact h.content x i r ((hrecord x i).symm.trans hr)
  · intro x i hr
    rw [hmoves.buffers]
    exact h.empty x i ((hrecord x i).symm.trans hr)
  · intro x i x' i' r hr hr'
    exact h.once x i x' i' r ((hrecord x i).symm.trans hr) ((hrecord x' i').symm.trans hr')
  · intro r
    rw [timesReported_silent]
    exact h.atMost r
  · intro r hr
    rw [timesReported_silent]
    exact h.unread r hr
  · intro x i r hr hone
    rw [timesReported_silent] at hone
    have hold := h.printed x i r ((hrecord x i).symm.trans hr) hone
    by_cases hx : x = t
    · subst hx
      rw [hmoves.self]
      exact fun hpc => hold (hmay i hpc)
    · rw [hmoves.others x hx]
      exact hold
  · intro report hmem
    rcases List.mem_append.mp hmem with hmem | hmem
    · exact h.right report hmem
    · simp at hmem

/-- **A thread reads** the next record into one of its buffers, or meets the end of the file. -/
theorem Truthful.read (h : Truthful c k l s) (hwhole : c.Whole) {t : Fin T} {i : ℕ}
    (hpc : (s.thread t).pc = .read i) (hread : ReadInto c s s' t k i) :
    Truthful c (k + 1) (l ++ [none]) s' := by
  have hbuffer : ∀ x j, ¬ (x = t ∧ j = i) →
      (s'.thread x).readingBuffer j = (s.thread x).readingBuffer j := by
    intro x j hxj
    by_cases hx : x = t
    · subst hx
      exact hread.buffer_of_ne fun hj => hxj ⟨rfl, hj⟩
    · rw [hread.of_ne x hx]
  -- the buffer that is read into is new, or as it was
  have hnew : (s'.thread t).readingBuffer i = { bytes := recordAt c.file k, record := some k } ∧
      k < c.records ∨ (s'.thread t).readingBuffer i = (s.thread t).readingBuffer i := by
    rw [hread.buffer]
    by_cases hlt : k < c.records
    · exact .inl ⟨overlay_of_lt hwhole hlt (h.length t i), hlt⟩
    · exact .inr (overlay_of_ge hwhole (Nat.le_of_not_lt hlt) _)
  have hcases : ∀ x j, (s'.thread x).readingBuffer j = (s.thread x).readingBuffer j ∨
      (x = t ∧ j = i) ∧ k < c.records ∧
        (s'.thread x).readingBuffer j = { bytes := recordAt c.file k, record := some k } := by
    intro x j
    by_cases hxj : x = t ∧ j = i
    · obtain ⟨rfl, rfl⟩ := hxj
      rcases hnew with ⟨hnew, hlt⟩ | hold
      · exact .inr ⟨⟨rfl, rfl⟩, hlt, hnew⟩
      · exact .inl hold
    · exact .inl (hbuffer x j hxj)
  have hrecord : ∀ x j r, s'.recordIn x j = some r →
      s.recordIn x j = some r ∧ r < k ∨ (x = t ∧ j = i) ∧ r = k ∧ k < c.records := by
    intro x j r hr
    unfold State.recordIn at hr
    rcases hcases x j with hold | ⟨hxj, hlt, hnew⟩
    · rw [hold] at hr
      exact .inl ⟨hr, (h.content x j r hr).1⟩
    · rw [hnew] at hr
      cases hr
      exact .inr ⟨hxj, rfl, hlt⟩
  constructor
  · exact hread.offset
  · intro x j
    rcases hcases x j with hold | ⟨-, hlt, hnew⟩
    · rw [hold]
      exact h.length x j
    · rw [hnew]
      exact length_recordAt hwhole hlt
  · intro x j hj
    by_cases hx : x = t
    · rw [hx, hread.pc] at hj
      cases hj
    · rw [hread.of_ne x hx] at hj ⊢
      exact h.hit x j hj
  · intro x j r hr
    rcases hcases x j with hold | ⟨-, hlt, hnew⟩
    · unfold State.recordIn at hr
      rw [hold] at hr ⊢
      obtain ⟨hk, hcontent⟩ := h.content x j r hr
      exact ⟨Nat.lt_succ_of_lt hk, hcontent⟩
    · unfold State.recordIn at hr
      rw [hnew] at hr ⊢
      cases hr
      exact ⟨Nat.lt_succ_self k, hlt, rfl⟩
  · intro x j hr
    rcases hcases x j with hold | ⟨-, -, hnew⟩
    · unfold State.recordIn at hr
      rw [hold] at hr ⊢
      exact h.empty x j hr
    · unfold State.recordIn at hr
      rw [hnew] at hr
      cases hr
  · intro x j x' j' r hr hr'
    rcases hrecord x j r hr with ⟨hr, hlt⟩ | ⟨⟨rfl, rfl⟩, rfl, -⟩
    · rcases hrecord x' j' r hr' with ⟨hr', -⟩ | ⟨-, rfl, -⟩
      · exact h.once x j x' j' r hr hr'
      · exact absurd hlt (Nat.lt_irrefl r)
    · rcases hrecord x' j' _ hr' with ⟨-, hlt⟩ | ⟨⟨rfl, rfl⟩, -⟩
      · exact absurd hlt (Nat.lt_irrefl _)
      · exact ⟨rfl, rfl⟩
  · intro r
    rw [timesReported_silent]
    exact h.atMost r
  · intro r hr
    rw [timesReported_silent]
    exact h.unread r (Nat.le_of_succ_le hr)
  · intro x j r hr hone
    rw [timesReported_silent] at hone
    rcases hrecord x j r hr with ⟨hold, -⟩ | ⟨-, rfl, -⟩
    · have hprinted := h.printed x j r hold hone
      by_cases hx : x = t
      · subst hx
        rw [hpc] at hprinted
        exact absurd trivial hprinted
      · rw [hread.of_ne x hx]
        exact hprinted
    · rw [h.unread r le_rfl] at hone
      cases hone
  · intro report hmem
    rcases List.mem_append.mp hmem with hmem | hmem
    · exact h.right report hmem
    · simp at hmem

/-- **A thread reports** what it has found: the record has not been reported before, and the
thread does not come back to it. -/
theorem Truthful.print (h : Truthful c k l s) {t : Fin T} {i : ℕ}
    (hpc : (s.thread t).pc = .print i) :
    Truthful c k (l ++ [some ⟨t, (s.thread t).readingBuffer i⟩])
      (s.goto t (if c.version = .three then .search (i + 1) else .cancel 0)) := by
  generalize hnext : (if c.version = .three then Pc.search (i + 1) else Pc.cancel 0) = pc
  have hmoves := moves_goto s t pc
  have hrecord : ∀ x j, (s.goto t pc).recordIn x j = s.recordIn x j := by
    intro x j
    unfold State.recordIn
    rw [hmoves.buffers]
  have hmay : ∀ j, pc.mayPrint c.version j → j ≠ i ∧ (s.thread t).pc.mayPrint c.version j := by
    intro j hj
    rw [← hnext] at hj
    rw [hpc]
    split at hj
    · rename_i hv
      have hlt := hj hv
      exact ⟨by omega, fun _ => by omega⟩
    · exact absurd hj id
  have hfirst : ∀ r, s.recordIn t i = some r → timesReported l r = 0 := by
    intro r hr
    have hle := h.atMost r
    by_contra hne
    apply h.printed t i r hr (by omega)
    rw [hpc]
    exact fun _ => le_rfl
  have htimes : ∀ r, timesReported (l ++ [some ⟨t, (s.thread t).readingBuffer i⟩]) r =
      timesReported l r + if s.recordIn t i = some r then 1 else 0 := by
    intro r
    rw [timesReported_concat]
    rfl
  constructor
  · exact h.offset
  · intro x j
    rw [hmoves.buffers]
    exact h.length x j
  · intro x j hj
    rw [hmoves.buffers]
    by_cases hx : x = t
    · subst hx
      rw [hmoves.self, ← hnext] at hj
      split at hj
      · cases hj
      · cases hj
    · rw [hmoves.others x hx] at hj
      exact h.hit x j hj
  · intro x j r hr
    rw [hmoves.buffers]
    exact h.content x j r ((hrecord x j).symm.trans hr)
  · intro x j hr
    rw [hmoves.buffers]
    exact h.empty x j ((hrecord x j).symm.trans hr)
  · intro x j x' j' r hr hr'
    exact h.once x j x' j' r ((hrecord x j).symm.trans hr) ((hrecord x' j').symm.trans hr')
  · intro r
    rw [htimes]
    split
    · rename_i hr
      rw [hfirst r hr]
    · exact h.atMost r
  · intro r hr
    rw [htimes, h.unread r hr, if_neg]
    intro hrec
    have hlt := (h.content t i r hrec).1
    omega
  · intro x j r hr hone
    replace hr := (hrecord x j).symm.trans hr
    rw [htimes] at hone
    by_cases hx : x = t
    · subst hx
      rw [hmoves.self]
      intro hj
      obtain ⟨hne, hold⟩ := hmay j hj
      rw [if_neg] at hone
      · exact h.printed x j r hr hone hold
      · intro hri
        exact hne (h.once x j x i r hr hri).2
    · rw [hmoves.others x hx]
      apply h.printed x j r hr
      rw [if_neg] at hone
      · exact hone
      · intro hri
        exact hx (h.once x j t i r hr hri).1
  · intro report hmem
    rcases List.mem_append.mp hmem with hmem | hmem
    · exact h.right report hmem
    · cases List.mem_singleton.mp hmem
      have hhit := h.hit t i hpc
      constructor
      · intro r hr
        obtain ⟨-, hlt, hbytes⟩ := h.content t i r hr
        refine ⟨hlt, hbytes, ?_⟩
        unfold Setting.Visible
        rw [← hbytes]
        exact hhit
      · intro hr
        rw [h.empty t i hr] at hhit
        exact eq_nil_of_strstr_zeros hhit

/-! ## Runs -/

/-- A thread goes to print where the word has been found. -/
theorem Goto.print_inv {t : Fin T} {pc : Pc} {i : ℕ} (move : Goto c s t pc) (hpc : pc = .print i) :
    strstr ((s.thread t).readingBuffer i).bytes c.word = true := by
  cases move with
  | found _ _ hit =>
    cases hpc
    exact hit
  | readAll =>
    split at hpc
    · cases hpc
    · cases hpc
  | _ => cases hpc

/-- **Every step** keeps the buffers and the reports right. -/
theorem Truthful.step (h : Truthful c k l s) (hwhole : c.Whole) (hstep : Step c s e s') :
    ∃ k', Truthful c k' (l ++ [e]) s' := by
  -- the mutex may change as well
  have hmutex : ∀ {t : Fin T} {pc : Pc} (m : Option (Fin T)),
      Moves s { s.goto t pc with mutex := m } t pc := by
    intro t pc m
    have hmoves := moves_goto s t pc
    exact ⟨rfl, hmoves.buffers, hmoves.self, hmoves.others⟩
  cases hstep with
  | acquire hpc =>
    refine ⟨k, h.moves (hmutex _) (by simp) ?_⟩
    intro i _
    rw [hpc]
    trivial
  | read hpc more => exact ⟨k + 1, h.read hwhole hpc (readInto h.offset _ _)⟩
  | @goto t pc move =>
    exact ⟨k, h.moves (moves_goto s t pc) (fun i hi => move.print_inv hi) fun i => move.mayPrint⟩
  | releaseEof hpc => exact ⟨k, h.moves (hmutex none) (by simp) fun i hi => absurd hi id⟩
  | release hpc =>
    refine ⟨k, h.moves (hmutex none) ?_ ?_⟩
    · intro i hi
      split at hi
      · cases hi
      · cases hi
    · intro i _
      rw [hpc]
      trivial
  | cancelEof hpc hj =>
    refine ⟨k, h.moves (moves_cancelOther s _ _ _) (by simp) ?_⟩
    intro i _
    rw [hpc]
    trivial
  | cancel hpc hj =>
    exact ⟨k, h.moves (moves_cancelOther s _ _ _) (by simp) fun i hi => absurd hi id⟩
  | print hpc => exact ⟨k, h.print hpc⟩

/-- **What is reported is true**, in every version, however the threads are interleaved and
whichever of them are cancelled: on a file of whole records every report is about a record in which
the word can be seen, and no record is reported twice.
SOURCE: cw08/zad1/main.c:61-139 -/
theorem reports_right (hwhole : c.Whole) (run : (program c).system.Run (start c) l s) :
    (∀ report, some report ∈ l → report.Right c) ∧ ∀ r, timesReported l r ≤ 1 := by
  obtain ⟨k, h⟩ := run.history_induction (I := fun l s => ∃ k, Truthful c k l s)
    (fun l s e s' ⟨k, h⟩ hstep => h.step hwhole (.of_system hstep)) ⟨0, truthful_start⟩
  exact ⟨h.right, h.atMost⟩

/-- Two threads that search as version 1 does: the first one finds the word and cancels the
other, which dies with the mutex. -/
def twoThreads : Setting 2 where
  version := .one
  recordsNo := 1
  word := [97]
  file := (List.replicate 2 (97 :: List.replicate 1023 0)).flatten
  charsReaded _ := 0

/-- For the numerals of `Fin 2`. -/
local instance neZero_two : NeZero 2 := ⟨by decide⟩

/-- What they do. -/
def twoThreadsRun : List (Option (Report 2)) × State 2 :=
  ((program twoThreads).exec (start twoThreads)
    (List.replicate 7 (.run 0) ++ List.replicate 2 (.run 1) ++ List.replicate 3 (.run 0) ++
      [.die 1])).get (by decide +kernel)

/-- The first thread reports the record, and the other dies. -/
theorem reports_right_of_two : timesReported twoThreadsRun.1 0 = 1 ∧
    (twoThreadsRun.2.thread 1).pc = .cancelled ∧
    (∀ report, some report ∈ twoThreadsRun.1 → report.Right twoThreads) ∧
    ∀ r, timesReported twoThreadsRun.1 r ≤ 1 := by
  have hrun : (program twoThreads).system.Run (start twoThreads) twoThreadsRun.1
      twoThreadsRun.2 := by
    unfold twoThreadsRun
    exact Machine.exec_run_get _
  have hwhole : twoThreads.Whole := by
    unfold Setting.Whole
    decide +kernel
  exact ⟨by decide +kernel, by decide +kernel, reports_right hwhole hrun⟩

end SystemyOperacyjne.WordSearch
