import SystemyOperacyjne.Analysis.WordSearchSteps
import SystemyOperacyjne.Library.Census

/-!
# The steps the search has left

In versions 1 and 3 every step takes something off a number. What a thread has to do until it
comes to the end of the `while` loop gets less with every step. Only a thread that begins another
round has more to do, and in version 1 it does so only if its last read was one of something:
that read has taken at least a byte off what is left of the file, and is credited to the thread
until it begins the round.
-/

set_option autoImplicit false

namespace SystemyOperacyjne.WordSearch

open Library

variable {T : ℕ} {c : Setting T} {s s' : State T} {e : Option (Report T)}

/-- The steps to the end of the thread, if it begins no other round. -/
def Pc.distance (T recordsNo : ℕ) : Pc → ℕ
  | .lock => 10 + T + 3 * recordsNo
  | .read i => 9 + T + 2 * recordsNo + (recordsNo - i)
  | .testEof => 8 + T + 2 * recordsNo
  | .unlock => 7 + T + 2 * recordsNo
  | .pause => 6 + T + 2 * recordsNo
  | .search i => 5 + T + 2 * (recordsNo - i)
  | .print i => 6 + T + 2 * (recordsNo - (i + 1))
  | .cancelEof j | .cancel j => 2 + (T - j)
  | .unlockEof | .loopEnd _ => 1
  | .returned | .cancelled => 0

/-- The steps of a round. -/
def Setting.round (c : Setting T) : ℕ :=
  if c.version = .three then 0 else 10 + T + 3 * c.recordsNo

/-- The last read of the thread's batch so far was one of something. -/
def Thread.gained (th : Thread) : Bool :=
  match th.pc with
  | .lock | .cancelEof _ | .unlockEof | .returned | .cancelled => false
  | .read i => i ≠ 0 ∧ th.charsReaded ≠ 0
  | .testEof => th.charsReaded ≠ 0
  | .unlock | .pause | .search _ | .print _ | .cancel _ | .loopEnd _ => true

/-- What the thread has to do, and what is credited to it. -/
def Setting.share (c : Setting T) (th : Thread) : ℕ :=
  th.pc.distance T c.recordsNo + if th.gained then c.round else 0

/-- What all threads have to do, and what they may have to do for the rest of the file. -/
def Setting.effort (c : Setting T) (s : State T) : ℕ :=
  census c.share s.thread + c.round * (c.file.length - s.offset)

/-- One thread's part of the effort gets less. -/
theorem effort_lt {t : Fin T} {th : Thread} (hthread : s'.thread = (s.setThread t th).thread)
    (hoffset : s'.offset = s.offset) (hlt : c.share th < c.share (s.thread t)) :
    c.effort s' < c.effort s := by
  have h := census_update c.share s.thread t th
  unfold Setting.effort
  rw [hthread, hoffset]
  unfold State.setThread
  dsimp only
  omega

/-- The requests have no part in the effort. -/
theorem effort_cancelOther (t j : Fin T) : c.effort (s.cancelOther t j) = c.effort s := by
  have hshare : ∀ x, c.share ((s.cancelOther t j).thread x) = c.share (s.thread x) := by
    intro x
    rw [State.cancelOther_thread]
    split
    · rfl
    · rfl
  unfold Setting.effort census
  simp only [hshare, State.cancelOther_offset]

/-- A thread goes on and gains no credit. -/
theorem effort_goto {t : Fin T} {pc : Pc} (hthread : s'.thread = (s.goto t pc).thread)
    (hoffset : s'.offset = s.offset)
    (hdistance : pc.distance T c.recordsNo < (s.thread t).pc.distance T c.recordsNo)
    (hgained : ({ s.thread t with pc := pc } : Thread).gained = true →
      (s.thread t).gained = true ∨ c.round = 0) : c.effort s' < c.effort s := by
  apply effort_lt hthread hoffset
  show pc.distance T c.recordsNo + _ < (s.thread t).pc.distance T c.recordsNo + _
  by_cases hnew : ({ s.thread t with pc := pc } : Thread).gained = true
  · rw [if_pos hnew]
    rcases hgained hnew with hold | hzero
    · rw [if_pos hold]
      omega
    · rw [hzero]
      omega
  · rw [if_neg hnew]
    omega

/-- What a read leaves: the offset is behind the bytes that were read, and their number is with
the thread. -/
theorem exists_readRecord (file : List UInt8) (s : State T) (t : Fin T) (i : ℕ) (pc : Pc) :
    ∃ (n : ℕ) (th : Thread), (n = 0 ∨ s.offset + n ≤ file.length) ∧ th.pc = pc ∧
      th.charsReaded = n ∧ ((s.readRecord file t i).goto t pc).offset = s.offset + n ∧
      ((s.readRecord file t i).goto t pc).thread = (s.setThread t th).thread := by
  refine ⟨((file.drop s.offset).take BUFFSIZE).length,
    ((s.readRecord file t i).goto t pc).thread t, ?_, ?_, ?_, rfl, ?_⟩
  · rw [List.length_take, List.length_drop]
    omega
  · rw [State.goto_self]
  · rw [State.goto_self]
    show ((s.setThread t _).thread t).charsReaded = _
    rw [State.setThread_self]
  · unfold State.goto State.readRecord State.setThread
    simp only [Function.update_idem, Function.update_self]

/-- **A read takes its bytes off the file**, and is credited if there were any. -/
theorem effort_read {t : Fin T} {i : ℕ} (hpc : (s.thread t).pc = .read i) (more : i < c.recordsNo) :
    c.effort ((s.readRecord c.file t i).goto t (.read (i + 1))) < c.effort s := by
  obtain ⟨n, th, hn, hth, hchars, hoffset, hthread⟩ :=
    exists_readRecord c.file s t i (.read (i + 1))
  have hcensus := census_update c.share s.thread t th
  have hold : 9 + T + 2 * c.recordsNo + (c.recordsNo - i) ≤ c.share (s.thread t) := by
    unfold Setting.share
    rw [hpc]
    exact Nat.le_add_right ..
  have hnew : c.share th =
      9 + T + 2 * c.recordsNo + (c.recordsNo - (i + 1)) + if n = 0 then 0 else c.round := by
    unfold Setting.share Thread.gained
    rw [hth, hchars]
    by_cases hzero : n = 0
    · simp [hzero, Pc.distance]
    · simp [hzero, Pc.distance]
  have hleft : c.round * (c.file.length - (s.offset + n)) + (if n = 0 then 0 else c.round) ≤
      c.round * (c.file.length - s.offset) := by
    by_cases hzero : n = 0
    · rw [if_pos hzero, hzero]
      exact Nat.le_refl _
    · rw [if_neg hzero, ← Nat.mul_succ]
      apply Nat.mul_le_mul_left
      omega
  unfold Setting.effort
  rw [hoffset, hthread]
  unfold State.setThread
  dsimp only
  omega

/-- A thread that begins another round spends its credit. -/
theorem effort_again {t : Fin T} (hpc : (s.thread t).pc = .loopEnd true)
    (hv : c.version ≠ .three) : c.effort (s.goto t .lock) < c.effort s := by
  apply effort_lt rfl rfl
  have hgained : (s.thread t).gained = true := by simp [Thread.gained, hpc]
  have hlock : ({ s.thread t with pc := .lock } : Thread).gained = false := by simp [Thread.gained]
  unfold Setting.share Setting.round
  rw [hgained, hlock, hpc]
  simp only [Pc.distance, if_neg hv, if_true, Bool.false_eq_true, if_false]
  omega

/-- A thread that goes on by itself has less to do. -/
theorem Goto.effort_lt (hv : c.version ≠ .two) (hpos : 0 < c.recordsNo) {t : Fin T} {pc : Pc}
    (move : Goto c s t pc) : c.effort (s.goto t pc) < c.effort s := by
  cases move with
  | dieReading _ _ version => exact absurd version hv
  | again hpc version => exact effort_again hpc version
  | @readAll i hpc all =>
    apply effort_goto rfl rfl
    · rw [hpc]
      split <;> simp only [Pc.distance] <;> omega
    · intro hgained
      split at hgained
      · -- in version 1 the credit is kept
        left
        have hi : i ≠ 0 := by omega
        simpa [Thread.gained, hpc, hi] using hgained
      · rename_i hone
        right
        unfold Setting.round
        rw [if_pos]
        cases hversion : c.version with
        | one => exact absurd hversion hone
        | two => exact absurd hversion hv
        | three => rfl
  | notEof hpc nonzero =>
    apply effort_goto rfl rfl
    · rw [hpc]
      simp only [Pc.distance]
      omega
    · intro _
      left
      simpa [Thread.gained, hpc] using nonzero
  | die may =>
    have hlive := not_ended_of_mayDie may
    apply effort_goto rfl rfl
    · cases hpc : (s.thread t).pc with
      | returned | cancelled =>
        rw [hpc] at hlive
        cases hlive
      | _ =>
        simp only [Pc.distance]
        omega
    · intro hgained
      simp [Thread.gained] at hgained
  | eof hpc | eofCancelled hpc | diePausing hpc | finish hpc =>
    apply effort_goto rfl rfl
    · rw [hpc]
      simp only [Pc.distance]
      omega
    · intro hgained
      simp [Thread.gained] at hgained
  | paused hpc | found hpc | missed hpc | searched hpc | cancelledAll hpc =>
    apply effort_goto rfl rfl
    · rw [hpc]
      simp only [Pc.distance]
      omega
    · intro _
      left
      simp [Thread.gained, hpc]

/-- **Every step of versions 1 and 3 takes something off the effort.** -/
theorem Step.effort_lt (hv : c.version ≠ .two) (hpos : 0 < c.recordsNo) (step : Step c s e s') :
    c.effort s' < c.effort s := by
  cases step with
  | acquire hpc =>
    apply effort_goto rfl rfl
    · rw [hpc]
      simp only [Pc.distance]
      omega
    · intro hgained
      simp [Thread.gained] at hgained
  | read hpc more => exact effort_read hpc more
  | goto move => exact move.effort_lt hv hpos
  | releaseEof hpc =>
    apply effort_goto rfl rfl
    · rw [hpc]
      exact Nat.zero_lt_one
    · intro hgained
      cases hgained
  | release hpc =>
    rw [if_neg hv]
    apply effort_goto rfl rfl
    · rw [hpc]
      simp only [Pc.distance]
      omega
    · intro _
      left
      simp [Thread.gained, hpc]
  | @cancelEof t j hpc hj =>
    rw [← effort_cancelOther (s := s) t ⟨j, hj⟩]
    apply effort_goto rfl rfl
    · rw [State.cancelOther_pc, hpc]
      simp only [Pc.distance]
      omega
    · intro hgained
      simp [Thread.gained] at hgained
  | @cancel t j hpc hj =>
    rw [← effort_cancelOther (s := s) t ⟨j, hj⟩]
    apply effort_goto rfl rfl
    · rw [State.cancelOther_pc, hpc]
      simp only [Pc.distance]
      omega
    · intro _
      left
      simp [Thread.gained, hpc]
  | print hpc =>
    apply effort_goto rfl rfl
    · rw [hpc]
      split <;> simp only [Pc.distance] <;> omega
    · intro _
      left
      simp [Thread.gained, hpc]

end SystemyOperacyjne.WordSearch
