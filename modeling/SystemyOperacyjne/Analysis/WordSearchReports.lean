import SystemyOperacyjne.Analysis.WordSearchSteps
import SystemyOperacyjne.Library.Census

/-!
# What version 3 of the search reports

Without cancellation every thread takes one batch, searches it and returns. So of the records
of the file the first `threads_no * records_no` are read, each into one buffer of one thread,
and a record that is read is reported once if `strstr` finds the word in it, and otherwise
never.
-/

set_option autoImplicit false

namespace SystemyOperacyjne.WordSearch

open Library

variable {T : ℕ} {c : Setting T} {s s' : State T} {e : Option (Report T)}
  {l : List (Option (Report T))}

/-- How often a record of the file has been reported. -/
def timesReported (l : List (Option (Report T))) (r : ℕ) : ℕ :=
  l.countP fun e => (e.bind fun report => report.buffer.record) = some r

/-- The buffers a thread is through with. -/
def Pc.searched (recordsNo : ℕ) : Pc → ℕ
  | .search i | .print i => i
  | .loopEnd _ | .returned => recordsNo
  | _ => 0

/-- The points a thread gets to without cancellation. -/
def Pc.Uncancelled (recordsNo : ℕ) : Pc → Prop
  | .lock | .unlock | .loopEnd _ | .returned => True
  | .read i | .search i => i ≤ recordsNo
  | .print i => i < recordsNo
  | _ => False

/-- The reads of all threads. -/
def State.position (s : State T) (recordsNo : ℕ) : ℕ :=
  census (fun th => th.pc.reads recordsNo) s.thread

/-- The record of the file that is in a buffer. -/
def State.recordIn (s : State T) (t : Fin T) (i : ℕ) : Option ℕ :=
  ((s.thread t).readingBuffer i).record

/-- **What has become of the records**: the state in which version 3 is after the steps `l`. -/
structure Batches (c : Setting T) (l : List (Option (Report T))) (s : State T) : Prop where
  pcs : ∀ t, (s.thread t).pc.Uncancelled c.recordsNo
  length : ∀ t i, ((s.thread t).readingBuffer i).bytes.length = BUFFSIZE
  offset : s.offset = min c.file.length (s.position c.recordsNo * BUFFSIZE)
  hit : ∀ t i, (s.thread t).pc = .print i →
    strstr ((s.thread t).readingBuffer i).bytes c.word = true
  content : ∀ t i r, s.recordIn t i = some r → i < (s.thread t).pc.reads c.recordsNo ∧
    r < s.position c.recordsNo ∧ ((s.thread t).readingBuffer i).bytes = recordAt c.file r
  read : ∀ r, r < c.records → r < s.position c.recordsNo → ∃ t i, s.recordIn t i = some r
  once : ∀ t i t' i' r, s.recordIn t i = some r → s.recordIn t' i' = some r → t = t' ∧ i = i'
  reported : ∀ t i r, s.recordIn t i = some r → timesReported l r =
    if i < (s.thread t).pc.searched c.recordsNo ∧ c.Visible r then 1 else 0
  unread : ∀ r, s.position c.recordsNo ≤ r → timesReported l r = 0

/-- One more event. -/
theorem timesReported_concat (e : Option (Report T)) (r : ℕ) : timesReported (l ++ [e]) r =
    timesReported l r + if (e.bind fun report => report.buffer.record) = some r then 1 else 0 := by
  unfold timesReported
  rw [List.countP_append, List.countP_singleton]
  simp only [decide_eq_true_eq]

/-- A silent step reports nothing. -/
theorem timesReported_silent (r : ℕ) : timesReported (l ++ [none]) r = timesReported l r := by
  rw [timesReported_concat]
  simp

/-- Nothing has been read in the beginning. -/
theorem position_start : (start c).position c.recordsNo = 0 :=
  census_eq_zero fun _ => rfl

/-- So no record has gone anywhere. -/
theorem batches_start : Batches c [] (start c) := by
  constructor
  · intro t
    exact trivial
  · intro t i
    exact List.length_replicate
  · rw [position_start]
    simp [start]
  · intro t i h
    cases h
  · intro t i r h
    cases h
  · intro r _ h
    rw [position_start] at h
    exact absurd h (Nat.not_lt_zero r)
  · intro t i t' i' r h
    cases h
  · intro t i r h
    cases h
  · intro r _
    rfl

/-- A step of a thread changes what that thread has read. -/
theorem position_setThread (recordsNo : ℕ) {t : Fin T} {th : Thread}
    (hthread : s'.thread = (s.setThread t th).thread) :
    s'.position recordsNo + (s.thread t).pc.reads recordsNo =
      s.position recordsNo + th.pc.reads recordsNo := by
  unfold State.position
  rw [hthread]
  exact census_update (fun th : Thread => th.pc.reads recordsNo) s.thread t th

/-- A thread has moved on, and its buffers are as they were. -/
theorem State.recordIn_goto {t : Fin T} {pc : Pc} (hthread : s'.thread = (s.goto t pc).thread)
    (x : Fin T) (i : ℕ) : s'.recordIn x i = s.recordIn x i := by
  unfold State.recordIn
  rw [hthread, State.goto_readingBuffer]

/-- **A thread moves on without reading.** What it has searched stays so, up to records in
which nothing is found and the one it reports. -/
theorem Batches.goto (h : Batches c l s) {t : Fin T} {pc : Pc}
    (hthread : s'.thread = (s.goto t pc).thread) (hoffset : s'.offset = s.offset)
    (hpc : pc.Uncancelled c.recordsNo)
    (hreads : pc.reads c.recordsNo = (s.thread t).pc.reads c.recordsNo)
    (hhit : ∀ i, pc = .print i → strstr ((s.thread t).readingBuffer i).bytes c.word = true)
    (hself : ∀ i r, s.recordIn t i = some r → timesReported (l ++ [e]) r =
      if i < pc.searched c.recordsNo ∧ c.Visible r then 1 else 0)
    (hother : ∀ r, (∀ i, s.recordIn t i ≠ some r) →
      timesReported (l ++ [e]) r = timesReported l r) : Batches c (l ++ [e]) s' := by
  have hposition : s'.position c.recordsNo = s.position c.recordsNo := by
    have hcensus := position_setThread c.recordsNo hthread
    dsimp only at hcensus
    omega
  have hrecord := State.recordIn_goto hthread
  have hbuffer : ∀ x, (s'.thread x).readingBuffer = (s.thread x).readingBuffer := by
    intro x
    rw [hthread, State.goto_readingBuffer]
  have hself' : (s'.thread t).pc = pc := by rw [hthread, State.goto_self]
  have hne : ∀ x, x ≠ t → s'.thread x = s.thread x := by
    intro x hx
    rw [hthread, State.goto_of_ne hx]
  constructor
  · intro x
    by_cases hx : x = t
    · rw [hx, hself']
      exact hpc
    · rw [hne x hx]
      exact h.pcs x
  · intro x i
    rw [hbuffer]
    exact h.length x i
  · rw [hposition, hoffset]
    exact h.offset
  · intro x i hi
    rw [hbuffer]
    by_cases hx : x = t
    · subst hx
      exact hhit i (hself'.symm.trans hi)
    · rw [hne x hx] at hi
      exact h.hit x i hi
  · intro x i r hr
    rw [hrecord] at hr
    obtain ⟨hi, hlt, hbytes⟩ := h.content x i r hr
    rw [hposition, hbuffer]
    refine ⟨?_, hlt, hbytes⟩
    by_cases hx : x = t
    · subst hx
      rw [hself', hreads]
      exact hi
    · rw [hne x hx]
      exact hi
  · intro r hr hlt
    rw [hposition] at hlt
    obtain ⟨x, i, hi⟩ := h.read r hr hlt
    exact ⟨x, i, (hrecord x i).trans hi⟩
  · intro x i x' i' r hr hr'
    rw [hrecord] at hr hr'
    exact h.once x i x' i' r hr hr'
  · intro x i r hr
    rw [hrecord] at hr
    by_cases hx : x = t
    · subst hx
      rw [hself']
      exact hself i r hr
    · rw [hne x hx, hother r]
      · exact h.reported x i r hr
      · intro j hj
        exact hx (h.once x i t j r hr hj).1
  · intro r hr
    rw [hposition] at hr
    rw [hother r]
    · exact h.unread r hr
    · intro i hi
      have hlt := (h.content t i r hi).2.1
      omega

/-- **A thread reads** the next record, if there is one, into a buffer nothing has been read
into. -/
theorem Batches.readRecord (h : Batches c l s) (hwhole : c.Whole) {t : Fin T} {i : ℕ}
    (hpc : (s.thread t).pc = .read i) (more : i < c.recordsNo)
    (hread : ReadInto c s s' t (s.position c.recordsNo) i) : Batches c (l ++ [none]) s' := by
  have hreads : (s.thread t).pc.reads c.recordsNo = i := by rw [hpc]; rfl
  have hposition : s'.position c.recordsNo = s.position c.recordsNo + 1 := by
    have hcensus := position_setThread c.recordsNo hread.thread
    rw [hreads] at hcensus
    dsimp only [Pc.reads] at hcensus
    omega
  have hne := hread.of_ne
  have hempty : ∀ r, s.recordIn t i ≠ some r := by
    intro r hr
    have hlt := (h.content t i r hr).1
    omega
  -- the buffers: one of them may have got a record
  have hbuffer : ∀ x j, ¬ (x = t ∧ j = i) →
      (s'.thread x).readingBuffer j = (s.thread x).readingBuffer j := by
    intro x j hxj
    by_cases hx : x = t
    · subst hx
      exact hread.buffer_of_ne fun hj => hxj ⟨rfl, hj⟩
    · rw [hne x hx]
  have hnew := hread.buffer
  have hold : ∀ x j, ¬ (x = t ∧ j = i) → s'.recordIn x j = s.recordIn x j := by
    intro x j hxj
    unfold State.recordIn
    rw [hbuffer x j hxj]
  have hrecord : ∀ r, s'.recordIn t i = some r →
      r = s.position c.recordsNo ∧ r < c.records := by
    intro r hr
    unfold State.recordIn at hr
    rw [hnew] at hr
    by_cases hlt : s.position c.recordsNo < c.records
    · rw [overlay_of_lt hwhole hlt (h.length t i)] at hr
      cases hr
      exact ⟨rfl, hlt⟩
    · rw [overlay_of_ge hwhole (by omega)] at hr
      exact absurd hr (hempty r)
  have hcases : ∀ x j r, s'.recordIn x j = some r →
      (x = t ∧ j = i ∧ r = s.position c.recordsNo ∧ r < c.records) ∨
        (¬ (x = t ∧ j = i) ∧ s.recordIn x j = some r ∧ r < s.position c.recordsNo) := by
    intro x j r hr
    by_cases hxj : x = t ∧ j = i
    · obtain ⟨rfl, rfl⟩ := hxj
      exact .inl ⟨rfl, rfl, hrecord r hr⟩
    · rw [hold x j hxj] at hr
      exact .inr ⟨hxj, hr, (h.content x j r hr).2.1⟩
  constructor
  · intro x
    by_cases hx : x = t
    · rw [hx, hread.pc]
      exact more
    · rw [hne x hx]
      exact h.pcs x
  · intro x j
    by_cases hxj : x = t ∧ j = i
    · obtain ⟨rfl, rfl⟩ := hxj
      rw [hnew]
      exact length_overlay c.file _ (h.length x j)
    · rw [hbuffer x j hxj]
      exact h.length x j
  · rw [hposition]
    exact hread.offset
  · intro x j hj
    by_cases hx : x = t
    · rw [hx, hread.pc] at hj
      cases hj
    · rw [hne x hx] at hj ⊢
      exact h.hit x j hj
  · intro x j r hr
    rw [hposition]
    rcases hcases x j r hr with ⟨rfl, rfl, rfl, hlt⟩ | ⟨hxj, hr', hlt⟩
    · refine ⟨?_, Nat.lt_succ_self _, ?_⟩
      · rw [hread.pc]
        exact Nat.lt_succ_self j
      · rw [hnew, overlay_of_lt hwhole hlt (h.length x j)]
    · obtain ⟨hj, -, hbytes⟩ := h.content x j r hr'
      rw [hbuffer x j hxj]
      refine ⟨?_, Nat.lt_succ_of_lt hlt, hbytes⟩
      by_cases hx : x = t
      · subst hx
        rw [hread.pc]
        rw [hreads] at hj
        exact Nat.lt_succ_of_lt hj
      · rw [hne x hx]
        exact hj
  · intro r hr hlt
    rw [hposition] at hlt
    by_cases hr' : r = s.position c.recordsNo
    · refine ⟨t, i, ?_⟩
      unfold State.recordIn
      rw [hnew, ← hr', overlay_of_lt hwhole hr (h.length t i)]
    · obtain ⟨x, j, hj⟩ := h.read r hr (by omega)
      refine ⟨x, j, ?_⟩
      rw [hold x j, hj]
      rintro ⟨rfl, rfl⟩
      exact hempty r hj
  · intro x j x' j' r hr hr'
    rcases hcases x j r hr with ⟨rfl, rfl, rfl, -⟩ | ⟨-, hr₁, hlt₁⟩
    · rcases hcases x' j' _ hr' with ⟨rfl, rfl, -, -⟩ | ⟨-, -, hlt₂⟩
      · exact ⟨rfl, rfl⟩
      · exact absurd hlt₂ (Nat.lt_irrefl _)
    · rcases hcases x' j' r hr' with ⟨rfl, rfl, rfl, -⟩ | ⟨-, hr₂, -⟩
      · exact absurd hlt₁ (Nat.lt_irrefl _)
      · exact h.once x j x' j' r hr₁ hr₂
  · intro x j r hr
    rw [timesReported_silent]
    rcases hcases x j r hr with ⟨rfl, rfl, rfl, -⟩ | ⟨hxj, hr', -⟩
    · rw [h.unread _ (Nat.le_refl _), hread.pc, if_neg]
      intro hlt
      exact absurd hlt.1 (Nat.not_lt_zero j)
    · rw [h.reported x j r hr']
      by_cases hx : x = t
      · subst hx
        rw [hread.pc, hpc]
        rfl
      · rw [hne x hx]
  · intro r hr
    rw [hposition] at hr
    rw [timesReported_silent]
    exact h.unread r (by omega)

/-- A thread moves on in silence. -/
theorem Batches.silent (h : Batches c l s) {t : Fin T} {pc : Pc}
    (hthread : s'.thread = (s.goto t pc).thread) (hoffset : s'.offset = s.offset)
    (hpc : pc.Uncancelled c.recordsNo)
    (hreads : pc.reads c.recordsNo = (s.thread t).pc.reads c.recordsNo)
    (hhit : ∀ i, pc = .print i → strstr ((s.thread t).readingBuffer i).bytes c.word = true)
    (hsearched : ∀ i r, s.recordIn t i = some r → c.Visible r →
      (i < pc.searched c.recordsNo ↔ i < (s.thread t).pc.searched c.recordsNo)) :
    Batches c (l ++ [none]) s' := by
  apply h.goto hthread hoffset hpc hreads hhit
  · intro i r hr
    rw [timesReported_silent, h.reported t i r hr]
    by_cases hvis : c.Visible r
    · simp only [hsearched i r hr hvis]
    · simp only [hvis, and_false]
  · intro r _
    exact timesReported_silent r

/-- A thread moves on with as many buffers behind it as before. -/
theorem Batches.pass (h : Batches c l s) {t : Fin T} {pc₀ pc : Pc} (hat : (s.thread t).pc = pc₀)
    (hthread : s'.thread = (s.goto t pc).thread) (hoffset : s'.offset = s.offset)
    (hpc : pc.Uncancelled c.recordsNo) (hreads : pc.reads c.recordsNo = pc₀.reads c.recordsNo)
    (hprint : ∀ i, pc ≠ .print i)
    (hsearched : pc.searched c.recordsNo = pc₀.searched c.recordsNo) :
    Batches c (l ++ [none]) s' := by
  subst hat
  apply h.silent hthread hoffset hpc hreads
  · exact fun i hi => absurd hi (hprint i)
  · intro i r _ _
    rw [hsearched]

/-- A thread goes on by itself. -/
theorem Batches.move (h : Batches c l s) (hv : c.version = .three) {t : Fin T} {pc : Pc}
    (move : Goto c s t pc) : Batches c (l ++ [none]) (s.goto t pc) := by
  have hpcs := h.pcs t
  cases move with
  | dieReading _ _ version => rw [hv] at version; cases version
  | @readAll i hpc all =>
    rw [hpc] at hpcs
    have hi : i = c.recordsNo := Nat.le_antisymm hpcs all
    rw [hv, if_neg (by decide)]
    exact h.pass hpc rfl rfl trivial hi.symm (by simp) rfl
  | @found i hpc more hit =>
    apply h.silent
    · rfl
    · rfl
    · exact more
    · rw [hpc]
      rfl
    · intro j hj
      cases hj
      exact hit
    · intro j r _ _
      rw [hpc]
      rfl
  | @missed i hpc more miss =>
    apply h.silent
    · rfl
    · rfl
    · exact more
    · rw [hpc]
      rfl
    · intro j hj
      cases hj
    · intro j r hr hvis
      rw [hpc]
      -- the record passed over is not one the word is seen in
      have hne : j ≠ i := by
        intro hj
        rw [hj] at hr
        have hbytes := (h.content t i r hr).2.2
        unfold Setting.Visible at hvis
        rw [← hbytes, miss] at hvis
        cases hvis
      dsimp only [Pc.searched]
      omega
  | @searched i hpc all =>
    rw [hpc] at hpcs
    have hi : i = c.recordsNo := Nat.le_antisymm hpcs all
    exact h.pass hpc rfl rfl trivial rfl (by simp) hi.symm
  | finish hpc => exact h.pass hpc rfl rfl trivial rfl (by simp) rfl
  | again _ version => exact absurd hv version
  | die may => exact absurd hv (not_three_of_mayDie may)
  | eof hpc | notEof hpc | eofCancelled hpc | diePausing hpc | paused hpc | cancelledAll hpc =>
    -- version 3 does not come here
    rw [hpc] at hpcs
    exact hpcs.elim

/-- A thread reports what is in its buffer. -/
theorem Batches.print (h : Batches c l s) {t : Fin T} {i : ℕ} (hpc : (s.thread t).pc = .print i) :
    Batches c (l ++ [some ⟨t, (s.thread t).readingBuffer i⟩]) (s.goto t (.search (i + 1))) := by
  have hpcs := h.pcs t
  rw [hpc] at hpcs
  have hold : (Pc.print i).searched c.recordsNo = i := rfl
  have hnew : (Pc.search (i + 1)).searched c.recordsNo = i + 1 := rfl
  apply h.goto
  · rfl
  · rfl
  · exact hpcs
  · rw [hpc]
    rfl
  · intro j hj
    cases hj
  · intro j r hr
    rw [timesReported_concat, h.reported t j r hr, hpc, hold, hnew]
    by_cases hj : j = i
    · subst hj
      have hvis : c.Visible r := by
        unfold Setting.Visible
        rw [← (h.content t j r hr).2.2]
        exact h.hit t j hpc
      have hbuffer : ((some (⟨t, (s.thread t).readingBuffer j⟩ : Report T)).bind
          fun report => report.buffer.record) = some r := hr
      rw [if_neg (fun hand => Nat.lt_irrefl j hand.1), if_pos hbuffer,
        if_pos ⟨Nat.lt_succ_self j, hvis⟩]
    · have hbuffer : ((some (⟨t, (s.thread t).readingBuffer i⟩ : Report T)).bind
          fun report => report.buffer.record) ≠ some r := by
        intro hi
        exact hj (h.once t j t i r hr hi).2
      have hiff : j < i + 1 ↔ j < i := by omega
      rw [if_neg hbuffer, Nat.add_zero]
      simp only [hiff]
  · intro r hr
    rw [timesReported_concat, if_neg, Nat.add_zero]
    exact hr i

/-- **Every step keeps it.** -/
theorem Batches.step (h : Batches c l s) (hv : c.version = .three) (hwhole : c.Whole)
    (hstep : Step c s e s') : Batches c (l ++ [e]) s' := by
  cases hstep with
  | acquire hpc => exact h.pass hpc rfl rfl (Nat.zero_le _) rfl (by simp) rfl
  | @read t i hpc more => exact h.readRecord hwhole hpc more (readInto h.offset t i)
  | goto move => exact h.move hv move
  | release hpc =>
    rw [hv, if_neg (by decide)]
    exact h.pass hpc rfl rfl (Nat.zero_le _) rfl (by simp) rfl
  | @releaseEof t hpc | @cancelEof t j hpc | @cancel t j hpc =>
    have hpcs := h.pcs t
    rw [hpc] at hpcs
    exact hpcs.elim
  | print hpc =>
    rw [if_pos hv]
    exact h.print hpc

/-- **It holds in every run of version 3.** -/
theorem batches (hv : c.version = .three) (hwhole : c.Whole)
    (run : (program c).system.Run (start c) l s) : Batches c l s :=
  run.history_induction (I := Batches c)
    (fun _ _ _ _ h hstep => h.step hv hwhole (.of_system hstep)) batches_start

/-- When all threads have returned, every one of them has made all its reads and has searched
all its buffers. -/
theorem Batches.ended (h : Batches c l s) (hended : s.ended) (t : Fin T) :
    (s.thread t).pc.reads c.recordsNo = c.recordsNo ∧
      (s.thread t).pc.searched c.recordsNo = c.recordsNo := by
  have hpcs := h.pcs t
  have ht := hended t
  cases hpc : (s.thread t).pc with
  | returned => exact ⟨rfl, rfl⟩
  | cancelled => rw [hpc] at hpcs; exact hpcs.elim
  | _ => rw [hpc] at ht; cases ht

/-- **What is reported in the end**: the records among the first `threads_no * records_no` in
which `strstr` finds the word, once each. -/
theorem Batches.final (h : Batches c l s) (hended : s.ended) {r : ℕ} (hr : r < c.records) :
    timesReported l r = if r < T * c.recordsNo ∧ c.Visible r then 1 else 0 := by
  have hposition : s.position c.recordsNo = T * c.recordsNo := by
    unfold State.position census
    rw [Finset.sum_congr rfl fun t _ => (h.ended hended t).1]
    simp
  by_cases hlt : r < T * c.recordsNo
  · obtain ⟨t, i, hi⟩ := h.read r hr (by omega)
    have hsearched : i < (s.thread t).pc.searched c.recordsNo := by
      rw [(h.ended hended t).2]
      have hreads := (h.content t i r hi).1
      rwa [(h.ended hended t).1] at hreads
    rw [h.reported t i r hi]
    simp only [hsearched, hlt, true_and]
  · rw [h.unread r (by omega), if_neg]
    intro hand
    exact hlt hand.1

/-- **When version 3 reports every record**: when all threads have returned, each record of the
file that contains the word has been reported exactly once, exactly if every such record is
among the first `threads_no * records_no` and has the word before its first zero byte.
SOURCE: cw08/zad1/main.c:42-59, cw08/zad1/main.c:61-139 -/
theorem reported_once_iff (hv : c.version = .three) (hwhole : c.Whole)
    (run : (program c).system.Run (start c) l s) (hended : s.ended) :
    (∀ r, r < c.records → c.Contains r → timesReported l r = 1) ↔
      ∀ r, r < c.records → c.Contains r → r < T * c.recordsNo ∧ c.Visible r := by
  have h := batches hv hwhole run
  constructor
  · intro hall r hr hcontains
    have hone := hall r hr hcontains
    rw [h.final hended hr] at hone
    by_contra hnot
    rw [if_neg hnot] at hone
    cases hone
  · intro hall r hr hcontains
    rw [h.final hended hr, if_pos (hall r hr hcontains)]

/-- A search for `a` in a file of records that begin with it, by one thread that reads one
record. -/
def oneThread (records : ℕ) : Setting 1 where
  version := .three
  recordsNo := 1
  word := [97]
  file := (List.replicate records (97 :: List.replicate 1023 0)).flatten
  charsReaded _ := 0

/-- For the numerals of `Fin 1`. -/
local instance neZero_one : NeZero 1 := ⟨by decide⟩

/-- What the thread does. -/
def oneBatch (records : ℕ) : Option (List (Option (Report 1)) × State 1) :=
  (program (oneThread records)).exec (start (oneThread records)) (List.replicate 8 (.run 0))

def oneRecordRun : List (Option (Report 1)) × State 1 :=
  (oneBatch 1).get (by decide +kernel)

/-- It is a run of the program. -/
theorem oneRecordRun_run :
    (program (oneThread 1)).system.Run (start (oneThread 1)) oneRecordRun.1 oneRecordRun.2 := by
  unfold oneRecordRun oneBatch
  exact Machine.exec_run_get _

/-- One record, which is reported once. -/
theorem reported_once_iff_one_record :
    (∀ r, r < (oneThread 1).records → (oneThread 1).Contains r →
        timesReported oneRecordRun.1 r = 1) ↔
      ∀ r, r < (oneThread 1).records → (oneThread 1).Contains r →
        r < 1 * (oneThread 1).recordsNo ∧ (oneThread 1).Visible r := by
  apply reported_once_iff (c := oneThread 1) rfl _ oneRecordRun_run
  · unfold State.ended
    decide +kernel
  · unfold Setting.Whole
    decide +kernel

def twoRecordsRun : List (Option (Report 1)) × State 1 :=
  (oneBatch 2).get (by decide +kernel)

/-- **A record is left out**: the thread returns after its first batch, and the second record,
which contains the word as well, has not been read. -/
theorem record_not_reported :
    (program (oneThread 2)).system.Run (start (oneThread 2)) twoRecordsRun.1 twoRecordsRun.2 ∧
    twoRecordsRun.2.ended ∧
    ¬ ∀ r, r < (oneThread 2).records → (oneThread 2).Contains r →
      timesReported twoRecordsRun.1 r = 1 := by
  refine ⟨?_, ?_, ?_⟩
  · unfold twoRecordsRun oneBatch
    exact Machine.exec_run_get _
  · unfold State.ended
    decide +kernel
  · intro hall
    exact absurd (hall 1 (by decide +kernel) (by decide +kernel)) (by decide +kernel)

end SystemyOperacyjne.WordSearch
