import SystemyOperacyjne.Analysis.WordSearchSteps

/-!
# The search before anything is decided

As long as no thread has printed a record or met the end of the file, no thread has been
cancelled either: the threads take the batches of the file one after another under the mutex,
and what is in their buffers comes from the records of the file.
-/

set_option autoImplicit false

namespace SystemyOperacyjne.WordSearch

open Library

variable {T : ℕ} {c : Setting T} {s s' : State T} {k : ℕ}

/-- What may be in buffer `i` of a thread when `k` batches have been taken: each of them has gone
to the thread or to another one. -/
inductive Holds (c : Setting T) (i : ℕ) : ℕ → Buffer → Prop
  | clear : Holds c i 0 { bytes := List.replicate BUFFSIZE 0, record := none }
  | skip {k : ℕ} {b : Buffer} (h : Holds c i k b) : Holds c i (k + 1) b
  | read {k : ℕ} {b : Buffer} (h : Holds c i k b) :
      Holds c i (k + 1) (b.overlay c.file (k * c.recordsNo + i))

/-- A buffer keeps its length. -/
theorem Holds.length {i : ℕ} {b : Buffer} (h : Holds c i k b) : b.bytes.length = BUFFSIZE := by
  induction h with
  | clear => exact List.length_replicate
  | skip _ ih => exact ih
  | read _ ih => exact length_overlay c.file _ ih

/-- The word can be found: `strstr` sees it in a buffer some thread may have read into. -/
def Setting.Findable (c : Setting T) : Prop :=
  ∃ k i b, i < c.recordsNo ∧ Holds c i k b ∧
    strstr (b.overlay c.file (k * c.recordsNo + i)).bytes c.word = true

/-- The points at which a thread holds the mutex. -/
def Pc.critical : Pc → Bool
  | .read _ | .testEof | .cancelEof _ | .unlockEof | .unlock => true
  | _ => false

/-- The points a thread gets to before anything is decided. -/
def Setting.CalmAt (c : Setting T) : Pc → Prop
  | .lock | .unlock | .pause | .loopEnd true => True
  | .testEof => c.version = .one
  | .read i | .search i => i ≤ c.recordsNo
  | .print i => i < c.recordsNo
  | _ => False

/-- The reads of the batch that is being taken. -/
def State.progress (s : State T) (recordsNo : ℕ) : ℕ :=
  match s.mutex with
  | none => 0
  | some t => (s.thread t).pc.reads recordsNo

/-- **Nothing is decided**, and `k` batches have been taken. -/
structure Calm (c : Setting T) (k : ℕ) (s : State T) : Prop where
  live : ∀ t, (s.thread t).cancelRequested = false
  pcs : ∀ t, c.CalmAt (s.thread t).pc
  holder : ∀ t, (s.thread t).pc.critical = true ↔ s.mutex = some t
  offset : s.offset = min c.file.length ((k * c.recordsNo + s.progress c.recordsNo) * BUFFSIZE)
  hit : ∀ t i, (s.thread t).pc = .print i →
    strstr ((s.thread t).readingBuffer i).bytes c.word = true
  holds : ∀ t i, (s.mutex = some t → (s.thread t).pc.reads c.recordsNo ≤ i) →
    Holds c i k ((s.thread t).readingBuffer i)
  fresh : ∀ t i, i < (s.thread t).pc.reads c.recordsNo → ∃ j b, Holds c i j b ∧
    (s.thread t).readingBuffer i = b.overlay c.file (j * c.recordsNo + i) ∧
    if s.mutex = some t then j = k else j < k

/-- Nothing is decided in the beginning. -/
theorem calm_start : Calm c 0 (start c) := by
  constructor
  · intro t
    rfl
  · intro t
    exact trivial
  · intro t
    constructor
    · intro h
      cases h
    · intro h
      cases h
  · show 0 = min c.file.length ((0 * c.recordsNo + 0) * BUFFSIZE)
    simp
  · intro t i h
    cases h
  · intro t i _
    exact .clear
  · intro t i h
    exact absurd h (Nat.not_lt_zero i)

/-- What calm means for one thread by itself. -/
structure Setting.CalmThread (c : Setting T) (th : Thread) : Prop where
  live : th.cancelRequested = false
  pc : c.CalmAt th.pc
  hit : ∀ i, th.pc = .print i → strstr (th.readingBuffer i).bytes c.word = true

/-- The thread that has taken a step is calm, and so are the others. -/
theorem Calm.threads (h : Calm c k s) {t : Fin T} (hself : c.CalmThread (s'.thread t))
    (hne : ∀ x, x ≠ t → s'.thread x = s.thread x) (x : Fin T) : c.CalmThread (s'.thread x) := by
  by_cases hx : x = t
  · rw [hx]
    exact hself
  · rw [hne x hx]
    exact ⟨h.live x, h.pcs x, h.hit x⟩

/-- While one thread is in its turn no other thread is. -/
theorem Calm.other (h : Calm c k s) {t x : Fin T} (ht : (s.thread t).pc.critical = true)
    (hx : x ≠ t) : s.mutex ≠ some x := by
  intro hmutex
  rw [(h.holder t).mp ht] at hmutex
  cases hmutex
  exact hx rfl

/-- The thread with the mutex is the one that takes the batch. -/
theorem State.progress_critical (h : Calm c k s) {t : Fin T}
    (ht : (s.thread t).pc.critical = true) :
    s.progress c.recordsNo = (s.thread t).pc.reads c.recordsNo := by
  unfold State.progress
  rw [(h.holder t).mp ht]

/-- **A thread takes the mutex.** -/
theorem Calm.acquire (h : Calm c k s) {t : Fin T} (hpc : (s.thread t).pc = .lock)
    (hfree : s.mutex = none) : Calm c k { s.goto t (.read 0) with mutex := some t } := by
  have hself : ({ s.goto t (.read 0) with mutex := some t } : State T).thread t =
      { s.thread t with pc := .read 0 } := State.goto_self ..
  have hne : ∀ x, x ≠ t →
      ({ s.goto t (.read 0) with mutex := some t } : State T).thread x = s.thread x :=
    fun x hx => State.goto_of_ne hx _
  have hzero : s.progress c.recordsNo = 0 := by
    unfold State.progress
    rw [hfree]
  have hthreads := h.threads (by rw [hself]; exact ⟨h.live t, Nat.zero_le _, by simp⟩) hne
  constructor
  · exact fun x => (hthreads x).live
  · exact fun x => (hthreads x).pc
  · intro x
    by_cases hx : x = t
    · subst hx
      rw [hself]
      simp [Pc.critical]
    · rw [hne x hx, h.holder x, hfree]
      constructor
      · intro hnone
        cases hnone
      · intro hsome
        cases hsome
        exact absurd rfl hx
  · have hoffset := h.offset
    rw [hzero] at hoffset
    rw [show State.progress _ c.recordsNo = 0 by
      unfold State.progress
      dsimp only
      rw [hself]
      rfl]
    exact hoffset
  · exact fun x => (hthreads x).hit
  · intro x i _
    have hold : Holds c i k ((s.thread x).readingBuffer i) := by
      apply h.holds
      intro hmutex
      rw [hfree] at hmutex
      cases hmutex
    by_cases hx : x = t
    · subst hx
      rw [hself]
      exact hold
    · rw [hne x hx]
      exact hold
  · intro x i hi
    by_cases hx : x = t
    · rw [hx, hself] at hi
      exact absurd hi (Nat.not_lt_zero i)
    · rw [hne x hx] at hi ⊢
      obtain ⟨j, b, hb, heq, hj⟩ := h.fresh x i hi
      rw [hfree, if_neg (by simp)] at hj
      refine ⟨j, b, hb, heq, ?_⟩
      rw [if_neg]
      · exact hj
      · intro hsome
        cases hsome
        exact hx rfl

/-- **A thread moves on** without the mutex changing hands. -/
theorem Calm.goto (h : Calm c k s) {t : Fin T} {pc : Pc} (hpc : c.CalmAt pc)
    (hcritical : pc.critical = (s.thread t).pc.critical)
    (hreads : pc.reads c.recordsNo ≤ (s.thread t).pc.reads c.recordsNo)
    (hsame : (s.thread t).pc.critical = true →
      pc.reads c.recordsNo = (s.thread t).pc.reads c.recordsNo)
    (hhit : ∀ i, pc = .print i → strstr ((s.thread t).readingBuffer i).bytes c.word = true) :
    Calm c k (s.goto t pc) := by
  have hthreads := h.threads (by rw [State.goto_self]; exact ⟨h.live t, hpc, hhit⟩)
    (fun x hx => State.goto_of_ne hx pc)
  constructor
  · exact fun x => (hthreads x).live
  · exact fun x => (hthreads x).pc
  · intro x
    rw [State.goto_mutex, ← h.holder x]
    by_cases hx : x = t
    · subst hx
      rw [State.goto_self, hcritical]
    · rw [State.goto_of_ne hx]
  · rw [State.goto_offset, h.offset]
    congr 3
    unfold State.progress
    rw [State.goto_mutex]
    cases hmutex : s.mutex with
    | none => rfl
    | some x =>
      dsimp only
      by_cases hx : x = t
      · subst hx
        rw [State.goto_self, hsame ((h.holder x).mpr hmutex)]
      · rw [State.goto_of_ne hx]
  · exact fun x => (hthreads x).hit
  · intro x i hi
    rw [State.goto_mutex] at hi
    by_cases hx : x = t
    · subst hx
      rw [State.goto_self] at hi ⊢
      apply h.holds
      intro hmutex
      rw [← hsame ((h.holder x).mpr hmutex)]
      exact hi hmutex
    · rw [State.goto_of_ne hx] at hi ⊢
      exact h.holds x i hi
  · intro x i hi
    rw [State.goto_mutex]
    by_cases hx : x = t
    · subst hx
      rw [State.goto_self] at hi ⊢
      exact h.fresh x i (Nat.lt_of_lt_of_le hi hreads)
    · rw [State.goto_of_ne hx] at hi ⊢
      exact h.fresh x i hi

/-- What a read of a thread in its turn does. -/
theorem Calm.readInto (h : Calm c k s) {t : Fin T} {i : ℕ} (hpc : (s.thread t).pc = .read i) :
    ReadInto c s ((s.readRecord c.file t i).goto t (.read (i + 1))) t (k * c.recordsNo + i) i := by
  have hcritical : (s.thread t).pc.critical = true := by rw [hpc]; rfl
  have hreads : (s.thread t).pc.reads c.recordsNo = i := by rw [hpc]; rfl
  have hoffset := h.offset
  rw [State.progress_critical h hcritical, hreads] at hoffset
  exact WordSearch.readInto hoffset t i

/-- **A thread reads a record** of its batch. -/
theorem Calm.read (h : Calm c k s) {t : Fin T} {i : ℕ} (hpc : (s.thread t).pc = .read i)
    (more : i < c.recordsNo) :
    Calm c k ((s.readRecord c.file t i).goto t (.read (i + 1))) := by
  have hcritical : (s.thread t).pc.critical = true := by rw [hpc]; rfl
  have hmutex := (h.holder t).mp hcritical
  have hreads : (s.thread t).pc.reads c.recordsNo = i := by rw [hpc]; rfl
  have hread := h.readInto hpc
  generalize (s.readRecord c.file t i).goto t (.read (i + 1)) = s' at hread ⊢
  have hne := hread.of_ne
  have hmutex' : s'.mutex = some t := hread.mutex.trans hmutex
  have hthreads := h.threads (by rw [hread.self]; exact ⟨h.live t, more, by simp⟩) hne
  constructor
  · exact fun x => (hthreads x).live
  · exact fun x => (hthreads x).pc
  · intro x
    rw [hmutex']
    by_cases hx : x = t
    · rw [hx, hread.pc]
      simp [Pc.critical]
    · rw [hne x hx, h.holder x, hmutex]
  · unfold State.progress
    rw [hmutex']
    dsimp only
    rw [hread.pc]
    exact hread.offset
  · exact fun x => (hthreads x).hit
  · intro x j hj
    by_cases hx : x = t
    · subst hx
      have hle : i + 1 ≤ j := by
        have hall := hj hmutex'
        rw [hread.pc] at hall
        exact hall
      rw [hread.buffer_of_ne (by omega)]
      apply h.holds
      intro _
      rw [hreads]
      omega
    · rw [hne x hx]
      apply h.holds
      intro hsome
      exact absurd hsome (h.other hcritical hx)
  · intro x j hj
    by_cases hx : x = t
    · subst hx
      simp only [hmutex', ↓reduceIte]
      rw [hread.pc] at hj
      by_cases hji : j = i
      · subst hji
        refine ⟨k, _, ?_, hread.buffer, rfl⟩
        apply h.holds
        intro _
        rw [hreads]
      · obtain ⟨k', b, hb, heq, hk'⟩ := h.fresh x j (by
          rw [hreads]
          exact Nat.lt_of_le_of_ne (Nat.lt_succ_iff.mp hj) hji)
        rw [if_pos hmutex] at hk'
        exact ⟨k', b, hb, (hread.buffer_of_ne hji).trans heq, hk'⟩
    · rw [hne x hx] at hj ⊢
      rw [hmutex', ← hmutex]
      exact h.fresh x j hj

/-- **A thread releases the mutex** and has taken its batch. -/
theorem Calm.release (h : Calm c k s) {t : Fin T} (hpc : (s.thread t).pc = .unlock) {pc : Pc}
    (hcalm : c.CalmAt pc) (hcritical : pc.critical = false)
    (hreads : pc.reads c.recordsNo = c.recordsNo) (hhit : ∀ i, pc ≠ .print i) :
    Calm c (k + 1) { s.goto t pc with mutex := none } := by
  have hinside : (s.thread t).pc.critical = true := by rw [hpc]; rfl
  have hmutex := (h.holder t).mp hinside
  have hall : (s.thread t).pc.reads c.recordsNo = c.recordsNo := by rw [hpc]; rfl
  have hself : ({ s.goto t pc with mutex := none } : State T).thread t =
      { s.thread t with pc := pc } := State.goto_self ..
  have hne : ∀ x, x ≠ t →
      ({ s.goto t pc with mutex := none } : State T).thread x = s.thread x :=
    fun x hx => State.goto_of_ne hx _
  have hbuffer : ∀ x, (({ s.goto t pc with mutex := none } : State T).thread x).readingBuffer =
      (s.thread x).readingBuffer := fun x => State.goto_readingBuffer t x pc
  have hthreads := h.threads
    (by rw [hself]; exact ⟨h.live t, hcalm, fun i hi => absurd hi (hhit i)⟩) hne
  constructor
  · exact fun x => (hthreads x).live
  · exact fun x => (hthreads x).pc
  · intro x
    by_cases hx : x = t
    · rw [hx, hself, hcritical]
      simp
    · rw [hne x hx, h.holder x]
      constructor
      · intro hsome
        exact absurd hsome (h.other hinside hx)
      · intro hnone
        cases hnone
  · show s.offset = min c.file.length (((k + 1) * c.recordsNo + 0) * BUFFSIZE)
    rw [h.offset, State.progress_critical h hinside, hall, Nat.succ_mul, Nat.add_zero]
  · exact fun x => (hthreads x).hit
  · intro x i _
    rw [hbuffer]
    by_cases hx : x = t
    · subst hx
      by_cases hi : i < c.recordsNo
      · obtain ⟨j, b, hb, heq, hj⟩ := h.fresh x i (hall.symm ▸ hi)
        rw [if_pos hmutex] at hj
        rw [heq, hj]
        rw [hj] at hb
        exact .read hb
      · apply Holds.skip
        apply h.holds
        intro _
        rw [hall]
        omega
    · apply Holds.skip
      apply h.holds
      intro hsome
      exact absurd hsome (h.other hinside hx)
  · intro x i hi
    rw [hbuffer]
    have hlt : i < (s.thread x).pc.reads c.recordsNo := by
      by_cases hx : x = t
      · subst hx
        rw [hself, hreads] at hi
        rw [hall]
        exact hi
      · rw [hne x hx] at hi
        exact hi
    obtain ⟨j, b, hb, heq, hj⟩ := h.fresh x i hlt
    refine ⟨j, b, hb, heq, ?_⟩
    rw [if_neg (by simp)]
    by_cases hx : x = t
    · rw [hx, if_pos hmutex] at hj
      omega
    · rw [if_neg (h.other hinside hx)] at hj
      omega

/-- In version 1 the thread goes on to search its batch. -/
theorem Calm.release_search (h : Calm c k s) {t : Fin T} (hpc : (s.thread t).pc = .unlock) :
    Calm c (k + 1) { s.goto t (.search 0) with mutex := none } := by
  apply h.release hpc
  · exact Nat.zero_le _
  · rfl
  · rfl
  · intro i hi
    cases hi

/-- Where the mutex is free no thread is in its turn. -/
theorem Calm.idle (h : Calm c k s) (hfree : s.mutex = none) (t : Fin T) :
    (s.thread t).pc.critical ≠ true := by
  intro ht
  have hsome := (h.holder t).mp ht
  rw [hfree] at hsome
  cases hsome

/-- A thread moves on with as many reads behind it as before. -/
theorem Calm.pass (h : Calm c k s) {t : Fin T} {pc₀ pc : Pc} (hat : (s.thread t).pc = pc₀)
    (hpc : c.CalmAt pc) (hcritical : pc.critical = pc₀.critical)
    (hreads : pc.reads c.recordsNo = pc₀.reads c.recordsNo) (hprint : ∀ i, pc ≠ .print i) :
    Calm c k (s.goto t pc) := by
  subst hat
  apply h.goto hpc hcritical (Nat.le_of_eq hreads)
  · exact fun _ => hreads
  · exact fun i hi => absurd hi (hprint i)

/-- **A thread goes on by itself**, without meeting the end of the file. -/
theorem Calm.move (h : Calm c k s) (hv : c.version ≠ .three) {t : Fin T} {pc : Pc}
    (move : Goto c s t pc) (hne : pc ≠ .cancelEof 0) : Calm c k (s.goto t pc) := by
  have hpcs := h.pcs t
  have hlive := h.live t
  cases move with
  | dieReading _ _ _ requested | diePausing _ requested =>
    rw [hlive] at requested
    cases requested
  | @readAll i hpc all =>
    rw [hpc] at hpcs
    have hi : i = c.recordsNo := Nat.le_antisymm hpcs all
    split
    · rename_i hone
      exact h.pass hpc hone rfl hi.symm (by simp)
    · exact h.pass hpc trivial rfl hi.symm (by simp)
  | eof => exact absurd rfl hne
  | notEof hpc => exact h.pass hpc trivial rfl rfl (by simp)
  | paused hpc => exact h.pass hpc (Nat.zero_le _) rfl rfl (by simp)
  | found hpc more hit =>
    apply h.goto
    · exact more
    · rw [hpc]
      rfl
    · rw [hpc]
      exact Nat.le_refl _
    · intro _
      rw [hpc]
      rfl
    · intro j hj
      cases hj
      exact hit
  | missed hpc more => exact h.pass hpc more rfl rfl (by simp)
  | searched hpc => exact h.pass hpc trivial rfl rfl (by simp)
  | again hpc =>
    apply h.goto
    · exact trivial
    · rw [hpc]
      rfl
    · exact Nat.zero_le _
    · intro hcritical
      rw [hpc] at hcritical
      cases hcritical
    · intro j hj
      cases hj
  | @finish keepGoing hpc stop =>
    rw [hpc] at hpcs
    have hkeep := stop.resolve_left hv
    subst hkeep
    exact hpcs.elim
  | die may =>
    have hreq := requested_of_mayDie may
    rw [hlive] at hreq
    cases hreq
  | eofCancelled hpc | cancelledAll hpc =>
    rw [hpc] at hpcs
    exact hpcs.elim

/-! ## The last read of a turn -/

/-- A thread in its turn knows how long the record was that it read last. -/
def LastRead (c : Setting T) (k : ℕ) (s : State T) : Prop :=
  ∀ t, (s.thread t).pc.critical = true → 0 < (s.thread t).pc.reads c.recordsNo →
    (s.thread t).charsReaded =
      (recordAt c.file (k * c.recordsNo + (s.thread t).pc.reads c.recordsNo - 1)).length

/-- A thread goes on without a read. -/
theorem LastRead.goto (h : LastRead c k s) {t : Fin T} {pc : Pc} {m : Option (Fin T)}
    (hreads : pc.critical = true → pc.reads c.recordsNo = 0 ∨
      (s.thread t).pc.critical = true ∧
        pc.reads c.recordsNo = (s.thread t).pc.reads c.recordsNo) :
    LastRead c k { s.goto t pc with mutex := m } := by
  have hself : ({ s.goto t pc with mutex := m } : State T).thread t =
      { s.thread t with pc := pc } := State.goto_self ..
  intro x hx hpos
  by_cases hxt : x = t
  · subst hxt
    rw [hself] at hx hpos ⊢
    dsimp only at hpos ⊢
    rcases hreads hx with hzero | ⟨hcritical, hsame⟩
    · omega
    · rw [hsame] at hpos ⊢
      exact h x hcritical hpos
  · have hne : ({ s.goto t pc with mutex := m } : State T).thread x = s.thread x :=
      State.goto_of_ne hxt _
    rw [hne] at hx hpos ⊢
    exact h x hx hpos

/-- A read keeps it. -/
theorem LastRead.read (h : LastRead c k s) {t : Fin T} {i : ℕ}
    (hread : ReadInto c s s' t (k * c.recordsNo + i) i) : LastRead c k s' := by
  intro x hx hpos
  by_cases hxt : x = t
  · rw [hxt, hread.charsReaded, hread.pc]
    rfl
  · rw [hread.of_ne x hxt] at hx hpos ⊢
    exact h x hx hpos

/-- A thread at the test for the end of the file has read its batch. -/
theorem LastRead.at_test (h : LastRead c k s) (hpos : 0 < c.recordsNo) {t : Fin T}
    (hpc : (s.thread t).pc = .testEof) : (s.thread t).charsReaded =
      (recordAt c.file (k * c.recordsNo + c.recordsNo - 1)).length := by
  have hlast := h t (by rw [hpc]; rfl) (by rw [hpc]; exact hpos)
  rw [hpc] at hlast
  exact hlast

/-! ## What is found -/

/-- What is found is something a thread may have read. -/
theorem Calm.findable (h : Calm c k s) {t : Fin T} {i : ℕ} (hpc : (s.thread t).pc = .print i) :
    c.Findable := by
  have hi := h.pcs t
  rw [hpc] at hi
  obtain ⟨j, b, hb, heq, -⟩ := h.fresh t i (by rw [hpc]; exact hi)
  have hhit := h.hit t i hpc
  rw [heq] at hhit
  exact ⟨j, i, b, hi, hb, hhit⟩

end SystemyOperacyjne.WordSearch
