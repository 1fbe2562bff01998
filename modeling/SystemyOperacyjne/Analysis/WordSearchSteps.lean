import SystemyOperacyjne.Model.WordSearch

/-!
# The steps of the parallel search

What a step of the search is, one case a kind of step, and what a file of whole records looks
like to the threads that read it.
-/

set_option autoImplicit false

namespace SystemyOperacyjne.WordSearch

open Library

variable {T : ℕ} {c : Setting T} {s s' : State T} {e : Option (Report T)}

/-- Where thread `t` can go by itself, leaving everything else as it is. -/
inductive Goto (c : Setting T) (s : State T) (t : Fin T) : Pc → Prop
  | dieReading {i : ℕ} (pc : (s.thread t).pc = .read i) (more : i < c.recordsNo)
      (version : c.version = .two) (requested : (s.thread t).cancelRequested = true) :
      Goto c s t .cancelled
  | readAll {i : ℕ} (pc : (s.thread t).pc = .read i) (all : c.recordsNo ≤ i) :
      Goto c s t (if c.version = .one then .testEof else .unlock)
  | eof (pc : (s.thread t).pc = .testEof) (zero : (s.thread t).charsReaded = 0) :
      Goto c s t (.cancelEof 0)
  | notEof (pc : (s.thread t).pc = .testEof) (nonzero : (s.thread t).charsReaded ≠ 0) :
      Goto c s t .unlock
  | eofCancelled {j : ℕ} (pc : (s.thread t).pc = .cancelEof j) (all : T ≤ j) :
      Goto c s t .unlockEof
  | diePausing (pc : (s.thread t).pc = .pause)
      (requested : (s.thread t).cancelRequested = true) : Goto c s t .cancelled
  | paused (pc : (s.thread t).pc = .pause) (free : (s.thread t).cancelRequested = false) :
      Goto c s t (.search 0)
  | found {i : ℕ} (pc : (s.thread t).pc = .search i) (more : i < c.recordsNo)
      (hit : strstr ((s.thread t).readingBuffer i).bytes c.word = true) : Goto c s t (.print i)
  | missed {i : ℕ} (pc : (s.thread t).pc = .search i) (more : i < c.recordsNo)
      (miss : strstr ((s.thread t).readingBuffer i).bytes c.word = false) :
      Goto c s t (.search (i + 1))
  | searched {i : ℕ} (pc : (s.thread t).pc = .search i) (all : c.recordsNo ≤ i) :
      Goto c s t (.loopEnd true)
  | cancelledAll {j : ℕ} (pc : (s.thread t).pc = .cancel j) (all : T ≤ j) :
      Goto c s t (.loopEnd false)
  | again (pc : (s.thread t).pc = .loopEnd true) (version : c.version ≠ .three) : Goto c s t .lock
  | finish {keepGoing : Bool} (pc : (s.thread t).pc = .loopEnd keepGoing)
      (stop : c.version = .three ∨ keepGoing = false) : Goto c s t .returned
  | die (may : mayDie c (s.thread t) = true) : Goto c s t .cancelled

/-- **What a step is**, one case a kind of step. -/
inductive Step (c : Setting T) (s : State T) : Option (Report T) → State T → Prop
  | acquire {t : Fin T} (pc : (s.thread t).pc = .lock) (free : s.mutex = none) :
      Step c s none { s.goto t (.read 0) with mutex := some t }
  | read {t : Fin T} {i : ℕ} (pc : (s.thread t).pc = .read i) (more : i < c.recordsNo) :
      Step c s none ((s.readRecord c.file t i).goto t (.read (i + 1)))
  | goto {t : Fin T} {pc : Pc} (move : Goto c s t pc) : Step c s none (s.goto t pc)
  | releaseEof {t : Fin T} (pc : (s.thread t).pc = .unlockEof) :
      Step c s none { s.goto t .returned with mutex := none }
  | release {t : Fin T} (pc : (s.thread t).pc = .unlock) :
      Step c s none
        { s.goto t (if c.version = .two then .pause else .search 0) with mutex := none }
  | cancelEof {t : Fin T} {j : ℕ} (pc : (s.thread t).pc = .cancelEof j) (hj : j < T) :
      Step c s none ((s.cancelOther t ⟨j, hj⟩).goto t (.cancelEof (j + 1)))
  | cancel {t : Fin T} {j : ℕ} (pc : (s.thread t).pc = .cancel j) (hj : j < T) :
      Step c s none ((s.cancelOther t ⟨j, hj⟩).goto t (.cancel (j + 1)))
  | print {t : Fin T} {i : ℕ} (pc : (s.thread t).pc = .print i) :
      Step c s (some ⟨t, (s.thread t).readingBuffer i⟩)
        (s.goto t (if c.version = .three then .search (i + 1) else .cancel 0))

/-- What a thread does is a step. -/
theorem Step.of_run {t : Fin T} (h : run c s t = some (e, s')) : Step c s e s' := by
  unfold run at h
  dsimp only at h
  split at h
  · rename_i hpc
    split at h
    · rename_i hfree
      cases h
      exact .acquire hpc hfree
    · cases h
  · rename_i i hpc
    split at h
    · rename_i hi
      split at h
      · rename_i hdie
        cases h
        exact .goto (.dieReading hpc hi hdie.1 hdie.2)
      · cases h
        exact .read hpc hi
    · cases h
      exact .goto (.readAll hpc (by omega))
  · rename_i hpc
    cases h
    apply Step.goto
    split
    · rename_i hzero
      exact .eof hpc hzero
    · rename_i hzero
      exact .notEof hpc hzero
  · rename_i j hpc
    split at h
    · cases h
      exact .cancelEof hpc _
    · cases h
      exact .goto (.eofCancelled hpc (by omega))
  · rename_i hpc
    cases h
    exact .releaseEof hpc
  · rename_i hpc
    cases h
    exact .release hpc
  · rename_i hpc
    cases h
    apply Step.goto
    split
    · rename_i hreq
      exact .diePausing hpc hreq
    · rename_i hreq
      exact .paused hpc (by simpa using hreq)
  · rename_i i hpc
    split at h
    · rename_i hi
      cases h
      apply Step.goto
      split
      · rename_i hhit
        exact .found hpc hi hhit
      · rename_i hhit
        exact .missed hpc hi (by simpa using hhit)
    · cases h
      exact .goto (.searched hpc (by omega))
  · rename_i i hpc
    cases h
    exact .print hpc
  · rename_i j hpc
    split at h
    · cases h
      exact .cancel hpc _
    · cases h
      exact .goto (.cancelledAll hpc (by omega))
  · rename_i keepGoing hpc
    cases h
    apply Step.goto
    split
    · rename_i hthree
      exact .finish hpc (.inl hthree)
    · rename_i hthree
      split
      · rename_i hkeep
        rw [hkeep] at hpc
        exact .again hpc hthree
      · rename_i hkeep
        exact .finish hpc (.inr (by simpa using hkeep))
  · cases h
  · cases h

/-- What the program does is a step. -/
theorem Step.of_system (h : (program c).system.step s e s') : Step c s e s' := by
  obtain ⟨choice, h⟩ := h
  cases choice with
  | run t => exact .of_run h
  | die t =>
    by_cases hmay : mayDie c (s.thread t) = true
    · simp only [program, next, if_pos hmay] at h
      cases h
      exact .goto (.die hmay)
    · simp only [program, next, if_neg hmay] at h
      cases h

/-- The step of a thread is a step of the program. -/
theorem step_run {t : Fin T} (h : run c s t = some (e, s')) : (program c).system.step s e s' :=
  ⟨.run t, h⟩

/-- Where a thread may die, it is a step of the program that it does. -/
theorem step_die {t : Fin T} (may : mayDie c (s.thread t) = true) :
    (program c).system.step s none (s.goto t .cancelled) := by
  refine ⟨.die t, ?_⟩
  show next c s (.die t) = _
  unfold next
  dsimp only
  rw [if_pos may]

/-- A thread dies only where it may. -/
theorem mayDie_of_next {t : Fin T} (h : next c s (.die t) = some (e, s')) :
    mayDie c (s.thread t) = true := by
  by_contra hmay
  unfold next at h
  dsimp only at h
  rw [if_neg hmay] at h
  cases h

/-- Who dies was cancelled. -/
theorem requested_of_mayDie {th : Thread} (may : mayDie c th = true) :
    th.cancelRequested = true := by
  unfold mayDie at may
  simp only [Bool.and_eq_true] at may
  exact may.1

/-- In version 3 no thread dies. -/
theorem not_three_of_mayDie {th : Thread} (may : mayDie c th = true) : c.version ≠ .three := by
  intro hv
  unfold mayDie at may
  simp [hv] at may

/-- What is cancelled has not ended. -/
theorem not_ended_of_mayDie {th : Thread} (may : mayDie c th = true) : th.pc.ended = false := by
  unfold mayDie at may
  cases hversion : c.version with
  | one =>
    rw [hversion] at may
    simp only [Bool.and_eq_true, Bool.not_eq_true'] at may
    exact may.2
  | two =>
    cases hpc : th.pc with
    | returned | cancelled => simp [hversion, hpc] at may
    | _ => rfl
  | three => simp [hversion] at may

/-- In version 1 a cancelled thread may die anywhere. -/
theorem mayDie_one (hv : c.version = .one) {th : Thread} (hreq : th.cancelRequested = true)
    (hlive : th.pc.ended = false) : mayDie c th = true := by
  unfold mayDie
  rw [hreq, hv]
  simpa using hlive

/-! ## What a thread does where it is -/

section Points

variable {t : Fin T} {i j : ℕ}

/-- A thread takes a free mutex. -/
theorem run_lock (hpc : (s.thread t).pc = .lock) (hfree : s.mutex = none) :
    run c s t = some (none, { s.goto t (.read 0) with mutex := some t }) := by
  unfold run
  dsimp only
  rw [hpc]
  dsimp only
  rw [if_pos hfree]

/-- It reads into the next buffer. -/
theorem run_read (hpc : (s.thread t).pc = .read i) (hi : i < c.recordsNo)
    (hlive : ¬ (c.version = .two ∧ (s.thread t).cancelRequested = true)) :
    run c s t = some (none, (s.readRecord c.file t i).goto t (.read (i + 1))) := by
  unfold run
  dsimp only
  rw [hpc]
  dsimp only
  rw [if_pos hi, if_neg hlive]

/-- In version 2 a cancelled thread dies when it reads. -/
theorem run_dieReading (hpc : (s.thread t).pc = .read i) (hi : i < c.recordsNo)
    (hdie : c.version = .two ∧ (s.thread t).cancelRequested = true) :
    run c s t = some (none, s.goto t .cancelled) := by
  unfold run
  dsimp only
  rw [hpc]
  dsimp only
  rw [if_pos hi, if_pos hdie]

/-- It has read into all of them. -/
theorem run_readAll (hpc : (s.thread t).pc = .read c.recordsNo) :
    run c s t = some (none, s.goto t (if c.version = .one then .testEof else .unlock)) := by
  unfold run
  dsimp only
  rw [hpc]
  dsimp only
  rw [if_neg (Nat.lt_irrefl _)]

/-- In version 1 it has read nothing. -/
theorem run_eof (hpc : (s.thread t).pc = .testEof) (hzero : (s.thread t).charsReaded = 0) :
    run c s t = some (none, s.goto t (.cancelEof 0)) := by
  unfold run
  dsimp only
  rw [hpc]
  dsimp only
  rw [if_pos hzero]

/-- Or it has read something. -/
theorem run_notEof (hpc : (s.thread t).pc = .testEof) (hsome : (s.thread t).charsReaded ≠ 0) :
    run c s t = some (none, s.goto t .unlock) := by
  unfold run
  dsimp only
  rw [hpc]
  dsimp only
  rw [if_neg hsome]

/-- At the end of the file it cancels the next thread. -/
theorem run_cancelEof (hpc : (s.thread t).pc = .cancelEof j) (hj : j < T) :
    run c s t = some (none, (s.cancelOther t ⟨j, hj⟩).goto t (.cancelEof (j + 1))) := by
  unfold run
  dsimp only
  rw [hpc]
  dsimp only
  rw [dif_pos hj]

/-- It has cancelled all of them. -/
theorem run_eofCancelled (hpc : (s.thread t).pc = .cancelEof T) :
    run c s t = some (none, s.goto t .unlockEof) := by
  unfold run
  dsimp only
  rw [hpc]
  dsimp only
  rw [dif_neg (Nat.lt_irrefl T)]

/-- It gives the mutex back and returns. -/
theorem run_unlockEof (hpc : (s.thread t).pc = .unlockEof) :
    run c s t = some (none, { s.goto t .returned with mutex := none }) := by
  unfold run
  dsimp only
  rw [hpc]

/-- It gives the mutex back after its turn. -/
theorem run_unlock (hpc : (s.thread t).pc = .unlock) :
    run c s t = some (none,
      { s.goto t (if c.version = .two then .pause else .search 0) with mutex := none }) := by
  unfold run
  dsimp only
  rw [hpc]

/-- A thread of version 2 goes on if it has not been cancelled. -/
theorem run_pause (hpc : (s.thread t).pc = .pause) (hlive : (s.thread t).cancelRequested = false) :
    run c s t = some (none, s.goto t (.search 0)) := by
  unfold run
  dsimp only
  rw [hpc]
  dsimp only
  rw [if_neg (by rw [hlive]; decide)]

/-- It sees the word in a buffer. -/
theorem run_found (hpc : (s.thread t).pc = .search i) (hi : i < c.recordsNo)
    (hhit : strstr ((s.thread t).readingBuffer i).bytes c.word = true) :
    run c s t = some (none, s.goto t (.print i)) := by
  unfold run
  dsimp only
  rw [hpc]
  dsimp only
  rw [if_pos hi, if_pos hhit]

/-- It does not see it. -/
theorem run_missed (hpc : (s.thread t).pc = .search i) (hi : i < c.recordsNo)
    (hmiss : strstr ((s.thread t).readingBuffer i).bytes c.word = false) :
    run c s t = some (none, s.goto t (.search (i + 1))) := by
  unfold run
  dsimp only
  rw [hpc]
  dsimp only
  rw [if_pos hi, if_neg (by rw [hmiss]; decide)]

/-- It has searched all buffers. -/
theorem run_searched (hpc : (s.thread t).pc = .search i) (hi : c.recordsNo ≤ i) :
    run c s t = some (none, s.goto t (.loopEnd true)) := by
  unfold run
  dsimp only
  rw [hpc]
  dsimp only
  rw [if_neg (Nat.not_lt.mpr hi)]

/-- It reports the record. -/
theorem run_print (hpc : (s.thread t).pc = .print i) (hv : c.version ≠ .three) :
    run c s t = some (some ⟨t, (s.thread t).readingBuffer i⟩, s.goto t (.cancel 0)) := by
  unfold run
  dsimp only
  rw [hpc]
  dsimp only
  rw [if_neg hv]

/-- It cancels the next thread. -/
theorem run_cancel (hpc : (s.thread t).pc = .cancel j) (hj : j < T) :
    run c s t = some (none, (s.cancelOther t ⟨j, hj⟩).goto t (.cancel (j + 1))) := by
  unfold run
  dsimp only
  rw [hpc]
  dsimp only
  rw [dif_pos hj]

/-- It has cancelled all of them. -/
theorem run_cancelledAll (hpc : (s.thread t).pc = .cancel T) :
    run c s t = some (none, s.goto t (.loopEnd false)) := by
  unfold run
  dsimp only
  rw [hpc]
  dsimp only
  rw [dif_neg (Nat.lt_irrefl T)]

/-- Having found nothing it begins again. -/
theorem run_again (hpc : (s.thread t).pc = .loopEnd true) (hv : c.version ≠ .three) :
    run c s t = some (none, s.goto t .lock) := by
  unfold run
  dsimp only
  rw [hpc]
  dsimp only
  rw [if_neg hv, if_pos rfl]

/-- Having found the word it returns. -/
theorem run_finish (hpc : (s.thread t).pc = .loopEnd false) :
    run c s t = some (none, s.goto t .returned) := by
  unfold run
  dsimp only
  rw [hpc]
  dsimp only
  split
  · rfl
  · rw [if_neg Bool.false_ne_true]

end Points

/-- A thread begins to cancel the others only where its last read was one of nothing. -/
theorem Goto.eof_inv {t : Fin T} {pc : Pc} (move : Goto c s t pc) (hpc : pc = .cancelEof 0) :
    (s.thread t).pc = .testEof ∧ (s.thread t).charsReaded = 0 := by
  cases move with
  | readAll => split at hpc <;> cases hpc
  | eof hat zero => exact ⟨hat, zero⟩
  | _ => cases hpc

/-! ## What the steps leave alone -/

/-- The thread that has stepped. -/
@[simp] theorem State.setThread_self (t : Fin T) (th : Thread) :
    (s.setThread t th).thread t = th :=
  Function.update_self ..

/-- The others are where they were. -/
theorem State.setThread_of_ne {t x : Fin T} (hne : x ≠ t) (th : Thread) :
    (s.setThread t th).thread x = s.thread x :=
  Function.update_of_ne hne ..

/-- The thread that goes elsewhere. -/
@[simp] theorem State.goto_self (t : Fin T) (pc : Pc) :
    (s.goto t pc).thread t = { s.thread t with pc := pc } :=
  State.setThread_self ..

/-- The others stay. -/
theorem State.goto_of_ne {t x : Fin T} (hne : x ≠ t) (pc : Pc) :
    (s.goto t pc).thread x = s.thread x :=
  State.setThread_of_ne hne _

/-- Going elsewhere changes the point only. -/
@[simp] theorem State.goto_cancelRequested (t x : Fin T) (pc : Pc) :
    ((s.goto t pc).thread x).cancelRequested = (s.thread x).cancelRequested := by
  by_cases hx : x = t
  · rw [hx, State.goto_self]
  · rw [State.goto_of_ne hx]

/-- The buffers stay as they are. -/
@[simp] theorem State.goto_readingBuffer (t x : Fin T) (pc : Pc) :
    ((s.goto t pc).thread x).readingBuffer = (s.thread x).readingBuffer := by
  by_cases hx : x = t
  · rw [hx, State.goto_self]
  · rw [State.goto_of_ne hx]

/-- So does the offset. -/
@[simp] theorem State.goto_offset (t : Fin T) (pc : Pc) : (s.goto t pc).offset = s.offset := rfl

/-- So does the mutex. -/
@[simp] theorem State.goto_mutex (t : Fin T) (pc : Pc) : (s.goto t pc).mutex = s.mutex := rfl

/-- A request to cancel leaves the offset. -/
@[simp] theorem State.cancelOther_offset (t j : Fin T) : (s.cancelOther t j).offset = s.offset := by
  unfold State.cancelOther
  split <;> rfl

/-- It leaves the mutex. -/
@[simp] theorem State.cancelOther_mutex (t j : Fin T) : (s.cancelOther t j).mutex = s.mutex := by
  unfold State.cancelOther
  split <;> rfl

/-- A request changes nothing but the flag of the thread it is for. -/
theorem State.cancelOther_thread (t j x : Fin T) : (s.cancelOther t j).thread x =
    if x = j ∧ j ≠ t then { s.thread x with cancelRequested := true } else s.thread x := by
  unfold State.cancelOther State.request
  by_cases hj : j = t
  · simp [hj]
  · by_cases hx : x = j
    · subst hx
      simp [hj]
    · simp [hj, hx, State.setThread_of_ne hx]

/-- It moves nobody. -/
@[simp] theorem State.cancelOther_pc (t j x : Fin T) :
    ((s.cancelOther t j).thread x).pc = (s.thread x).pc := by
  rw [State.cancelOther_thread]
  split <;> rfl

/-- It leaves the buffers. -/
@[simp] theorem State.cancelOther_readingBuffer (t j x : Fin T) :
    ((s.cancelOther t j).thread x).readingBuffer = (s.thread x).readingBuffer := by
  rw [State.cancelOther_thread]
  split <;> rfl

/-- A read is into a buffer of one's own. -/
theorem State.readRecord_of_ne {t x : Fin T} (hne : x ≠ t) (file : List UInt8) (i : ℕ) :
    (s.readRecord file t i).thread x = s.thread x :=
  State.setThread_of_ne hne _

/-- It cancels nobody. -/
theorem State.readRecord_cancelRequested (file : List UInt8) (t x : Fin T) (i : ℕ) :
    ((s.readRecord file t i).thread x).cancelRequested = (s.thread x).cancelRequested := by
  by_cases hx : x = t
  · subst hx
    show ((s.setThread x _).thread x).cancelRequested = _
    rw [State.setThread_self]
  · rw [State.readRecord_of_ne hx]

/-! ## Reading -/

/-- The reads a thread has made in its turn. -/
def Pc.reads (recordsNo : ℕ) : Pc → ℕ
  | .lock => 0
  | .read i => i
  | _ => recordsNo

/-- A record has a byte at least. -/
theorem BUFFSIZE_pos : 0 < BUFFSIZE := by decide

/-- A buffer into which record `r` of the file has been read: a short record leaves the rest
of the buffer as it was, and behind the file nothing is read. -/
def Buffer.overlay (b : Buffer) (file : List UInt8) (r : ℕ) : Buffer :=
  if (recordAt file r).isEmpty then b
  else { bytes := recordAt file r ++ b.bytes.drop (recordAt file r).length, record := some r }

/-- The thread after a read of record `r` into buffer `i`. -/
def Thread.afterRead (th : Thread) (file : List UInt8) (r i : ℕ) : Thread :=
  { th with
    readingBuffer := Function.update th.readingBuffer i ((th.readingBuffer i).overlay file r)
    charsReaded := (recordAt file r).length }

/-- **A read at the start of record `r`**, or behind the file, puts that record into the
buffer. -/
theorem readRecord_eq {r : ℕ} (hoffset : s.offset = min c.file.length (r * BUFFSIZE)) (t : Fin T)
    (i : ℕ) : s.readRecord c.file t i =
      { s.setThread t ((s.thread t).afterRead c.file r i) with
        offset := min c.file.length ((r + 1) * BUFFSIZE) } := by
  have hdrop : c.file.drop s.offset = c.file.drop (r * BUFFSIZE) := by
    rw [hoffset]
    by_cases hle : c.file.length ≤ r * BUFFSIZE
    · rw [Nat.min_eq_left hle, List.drop_length, List.drop_eq_nil_of_le hle]
    · rw [Nat.min_eq_right (by omega)]
  have hread : ByteFile.read { bytes := c.file, offset := s.offset } BUFFSIZE =
      (recordAt c.file r,
        { bytes := c.file, offset := s.offset + (recordAt c.file r).length }) := by
    unfold ByteFile.read recordAt
    simp only [hdrop]
  have hnext : s.offset + (recordAt c.file r).length =
      min c.file.length ((r + 1) * BUFFSIZE) := by
    unfold recordAt
    rw [hoffset, List.length_take, List.length_drop, Nat.add_mul, Nat.one_mul]
    omega
  unfold State.readRecord Thread.afterRead Buffer.overlay
  rw [hread]
  dsimp only
  rw [hnext]
  by_cases hempty : (recordAt c.file r).isEmpty = true
  · simp only [hempty, if_true]
  · -- the record begins at the offset
    have hlt : r * BUFFSIZE < c.file.length := by
      by_contra hge
      apply hempty
      unfold recordAt
      rw [List.drop_eq_nil_of_le (by omega), List.take_nil]
      rfl
    have hdiv : s.offset / BUFFSIZE = r := by
      rw [hoffset, Nat.min_eq_right (by omega), Nat.mul_div_cancel _ BUFFSIZE_pos]
    simp only [hempty, Bool.false_eq_true, if_false, hdiv]

/-- **Thread `t` has read record `r`** into buffer `i`, or has met the end of the file there. -/
structure ReadInto (c : Setting T) (s s' : State T) (t : Fin T) (r i : ℕ) : Prop where
  thread : s'.thread =
    (s.setThread t { (s.thread t).afterRead c.file r i with pc := .read (i + 1) }).thread
  mutex : s'.mutex = s.mutex
  offset : s'.offset = min c.file.length ((r + 1) * BUFFSIZE)

/-- What a read at the offset of record `r` does. -/
theorem readInto {r : ℕ} (hoffset : s.offset = min c.file.length (r * BUFFSIZE)) (t : Fin T)
    (i : ℕ) : ReadInto c s ((s.readRecord c.file t i).goto t (.read (i + 1))) t r i := by
  rw [readRecord_eq hoffset]
  constructor
  · simp only [State.goto, State.setThread, Function.update_idem, Function.update_self]
  · rfl
  · rfl

/-- The thread that has read. -/
theorem ReadInto.self {t : Fin T} {r i : ℕ} (h : ReadInto c s s' t r i) : s'.thread t =
    { (s.thread t).afterRead c.file r i with pc := .read (i + 1) } := by
  rw [h.thread, State.setThread_self]

/-- The others are as they were. -/
theorem ReadInto.of_ne {t : Fin T} {r i : ℕ} (h : ReadInto c s s' t r i) (x : Fin T)
    (hx : x ≠ t) : s'.thread x = s.thread x := by
  rw [h.thread, State.setThread_of_ne hx]

/-- It is at its next read. -/
theorem ReadInto.pc {t : Fin T} {r i : ℕ} (h : ReadInto c s s' t r i) :
    (s'.thread t).pc = .read (i + 1) := by
  rw [h.self]

/-- It is as cancelled as before. -/
theorem ReadInto.cancelRequested {t : Fin T} {r i : ℕ} (h : ReadInto c s s' t r i) :
    (s'.thread t).cancelRequested = (s.thread t).cancelRequested := by
  rw [h.self]
  rfl

/-- It knows how much it has read. -/
theorem ReadInto.charsReaded {t : Fin T} {r i : ℕ} (h : ReadInto c s s' t r i) :
    (s'.thread t).charsReaded = (recordAt c.file r).length := by
  rw [h.self]
  rfl

/-- What is in the buffer that has been read into. -/
theorem ReadInto.buffer {t : Fin T} {r i : ℕ} (h : ReadInto c s s' t r i) :
    (s'.thread t).readingBuffer i = ((s.thread t).readingBuffer i).overlay c.file r := by
  rw [h.self]
  exact Function.update_self ..

/-- Its other buffers are as they were. -/
theorem ReadInto.buffer_of_ne {t : Fin T} {r i j : ℕ} (h : ReadInto c s s' t r i) (hj : j ≠ i) :
    (s'.thread t).readingBuffer j = (s.thread t).readingBuffer j := by
  rw [h.self]
  exact Function.update_of_ne hj ..

/-! ## A file of whole records -/

/-- A file of whole records has their length. -/
theorem Setting.Whole.length (h : c.Whole) : c.file.length = c.records * BUFFSIZE :=
  (Nat.div_mul_cancel h).symm

/-- A record of the file is as long as a buffer. -/
theorem length_recordAt (h : c.Whole) {r : ℕ} (hr : r < c.records) :
    (recordAt c.file r).length = BUFFSIZE := by
  have hlen := h.length
  have hle : (r + 1) * BUFFSIZE ≤ c.records * BUFFSIZE := Nat.mul_le_mul_right _ hr
  rw [Nat.add_mul, Nat.one_mul] at hle
  unfold recordAt
  rw [List.length_take, List.length_drop]
  omega

/-- Behind the last record there is nothing. -/
theorem recordAt_eq_nil (h : c.Whole) {r : ℕ} (hr : c.records ≤ r) : recordAt c.file r = [] := by
  have hle : c.records * BUFFSIZE ≤ r * BUFFSIZE := Nat.mul_le_mul_right _ hr
  unfold recordAt
  rw [List.drop_eq_nil_of_le (by rw [h.length]; exact hle), List.take_nil]

/-- A record of the file replaces what was in the buffer. -/
theorem overlay_of_lt (h : c.Whole) {r : ℕ} (hr : r < c.records) {b : Buffer}
    (hb : b.bytes.length = BUFFSIZE) :
    b.overlay c.file r = { bytes := recordAt c.file r, record := some r } := by
  have hlen := length_recordAt h hr
  have hne : ¬ (recordAt c.file r).isEmpty = true := by
    rw [List.isEmpty_iff_length_eq_zero, hlen]
    exact Nat.ne_of_gt BUFFSIZE_pos
  unfold Buffer.overlay
  rw [if_neg hne, hlen, List.drop_eq_nil_of_le (Nat.le_of_eq hb), List.append_nil]

/-- Behind the file the buffer stays as it is. -/
theorem overlay_of_ge (h : c.Whole) {r : ℕ} (hr : c.records ≤ r) (b : Buffer) :
    b.overlay c.file r = b := by
  unfold Buffer.overlay
  rw [recordAt_eq_nil h hr]
  rfl

/-- A buffer keeps its length. -/
theorem length_overlay (file : List UInt8) (r : ℕ) {b : Buffer} (hb : b.bytes.length = BUFFSIZE) :
    (b.overlay file r).bytes.length = BUFFSIZE := by
  unfold Buffer.overlay
  split
  · exact hb
  · have hle : (recordAt file r).length ≤ BUFFSIZE := by
      unfold recordAt
      rw [List.length_take]
      exact Nat.min_le_left ..
    rw [List.length_append, List.length_drop]
    omega

end SystemyOperacyjne.WordSearch
