import Mathlib.Data.Nat.Find
import SystemyOperacyjne.Analysis.WordSearchJoins
import SystemyOperacyjne.Analysis.WordSearchStops

/-!
# Rounds of the search

A thread that runs alone from the beginning of the `while` loop takes a batch, searches it and
comes back, unless it finds the word. In version 2 it comes back at the end of the file too: it
reads nothing, searches what stands in its buffers and begins the next round.
-/

set_option autoImplicit false

namespace SystemyOperacyjne.WordSearch

open Library

variable {T : ℕ} {c : Setting T} {s s' : State T} {k : ℕ}

/-- Batch `k` is searched by the thread that takes it. -/
def Setting.Searches (c : Setting T) (k : ℕ) : Prop :=
  c.version = .two ∨
    c.version = .one ∧ recordAt c.file (k * c.recordsNo + c.recordsNo - 1) ≠ []

/-- The thread is at the beginning of the loop when `k` batches have been taken. -/
structure AtLock (c : Setting T) (k : ℕ) (s : State T) (t : Fin T) : Prop where
  pc : (s.thread t).pc = .lock
  free : s.mutex = none
  live : (s.thread t).cancelRequested = false
  offset : s.offset = min c.file.length (k * c.recordsNo * BUFFSIZE)

/-- The thread has found the word in its buffer `j`. -/
structure AtPrint (c : Setting T) (s : State T) (t : Fin T) (j : ℕ) : Prop where
  pc : (s.thread t).pc = .print j
  more : j < c.recordsNo
  hit : strstr ((s.thread t).readingBuffer j).bytes c.word = true

/-- What a round of thread `t` leaves. -/
structure RoundDone (c : Setting T) (s s' : State T) (t : Fin T) (k : ℕ) : Prop where
  batch : HasBatch c s s' t k
  free : s'.mutex = none
  outcome : (AtLock c (k + 1) s' t ∧ ∀ j, j < c.recordsNo →
    strstr ((s'.thread t).readingBuffer j).bytes c.word = false) ∨ ∃ j, AtPrint c s' t j

/-- A run that comes elsewhere is one of some steps. -/
theorem Silently.exists_run (h : Silently c s s') (hne : s ≠ s') :
    ∃ l, (program c).system.Run s l s' ∧ l ≠ [] := by
  obtain ⟨l, hrun, -⟩ := h
  refine ⟨l, hrun, ?_⟩
  intro hnil
  subst hnil
  cases hrun
  exact hne rfl

/-- **A thread goes through a round.** -/
theorem AtLock.round {t : Fin T} (h : AtLock c k s t) (hsearch : c.Searches k)
    (hpos : 0 < c.recordsNo) :
    ∃ l s', (program c).system.Run s l s' ∧ l ≠ [] ∧ RoundDone c s s' t k := by
  have hthree : c.version ≠ .three := by
    rcases hsearch with hv | ⟨hv, -⟩
    · rw [hv]
      decide
    · rw [hv]
      decide
  have hbatch : ∃ s', Silently c s s' ∧ HasBatch c s s' t k ∧ s'.mutex = none ∧
      (s'.thread t).pc = .search 0 := by
    rcases hsearch with hv | ⟨hv, hsome⟩
    · exact batch_run_two hv h.pc h.free h.live h.offset
    · exact batch_run_one hv h.pc h.free h.live h.offset hpos hsome
  obtain ⟨s₁, hrun, hbatch, hfree, hpc⟩ := hbatch
  have hne : s ≠ s₁ := by
    intro heq
    rw [← heq, h.pc] at hpc
    cases hpc
  obtain ⟨l, hl, hnil⟩ := hrun.exists_run hne
  rcases round_run hthree hpc with ⟨⟨m, hm, -⟩, hmiss⟩ | ⟨j, ⟨m, hm, -⟩, hj, hhit⟩
  · refine ⟨l ++ m, s₁.goto t .lock, hl.append hm, by simp [hnil], ?_⟩
    constructor
    · apply hbatch.goto
      · rfl
      · rfl
    · exact hfree
    · left
      refine ⟨?_, ?_⟩
      · constructor
        · rw [State.goto_self]
        · exact hfree
        · rw [State.goto_cancelRequested, hbatch.cancelRequested]
          exact h.live
        · exact hbatch.offset
      · intro j hj
        rw [State.goto_readingBuffer]
        exact hmiss j hj
  · refine ⟨l ++ m, s₁.goto t (.print j), hl.append hm, by simp [hnil], ?_⟩
    constructor
    · apply hbatch.goto
      · rfl
      · rfl
    · exact hfree
    · right
      refine ⟨j, ?_⟩
      constructor
      · rw [State.goto_self]
      · exact hj
      · rw [State.goto_readingBuffer]
        exact hhit

/-! ## Where the word is in no record -/

/-- A word that some record does not contain is not empty. -/
theorem word_ne_nil (hword : ∀ r, ¬ c.Contains r) : c.word ≠ [] := by
  intro hnil
  apply hword 0
  unfold Setting.Contains
  rw [hnil]
  exact List.nil_infix

/-- What `strstr` sees is there. -/
theorem infix_of_strstr {bytes word : List UInt8} (h : strstr bytes word = true) :
    word <:+: bytes := by
  have hinfix : word <:+: bytes.takeWhile fun b => b ≠ 0 := of_decide_eq_true h
  exact hinfix.trans (List.takeWhile_prefix _).isInfix

/-- A cleared buffer does not show the word. -/
theorem strstr_clear (hword : ∀ r, ¬ c.Contains r) :
    strstr (List.replicate BUFFSIZE 0) c.word = false := by
  have hne := word_ne_nil hword
  unfold strstr
  rw [List.takeWhile_replicate]
  simpa using hne

/-- A whole record overlays the buffer, and does not show the word. -/
theorem strstr_overlay_whole (hword : ∀ r, ¬ c.Contains r) {b : Buffer}
    (hb : b.bytes.length = BUFFSIZE) {r : ℕ} (hr : (r + 1) * BUFFSIZE ≤ c.file.length) :
    strstr (b.overlay c.file r).bytes c.word = false := by
  have hlen : (recordAt c.file r).length = BUFFSIZE := by
    unfold recordAt
    rw [List.length_take, List.length_drop]
    rw [Nat.succ_mul] at hr
    omega
  have hsome : ¬ (recordAt c.file r).isEmpty = true := by
    rw [List.isEmpty_iff_length_eq_zero, hlen]
    exact Nat.ne_of_gt BUFFSIZE_pos
  have hbytes : (b.overlay c.file r).bytes = recordAt c.file r := by
    unfold Buffer.overlay
    rw [if_neg hsome]
    show _ ++ _ = _
    rw [hlen, List.drop_eq_nil_of_le (Nat.le_of_eq hb), List.append_nil]
  rw [hbytes]
  by_contra hhit
  exact hword r (infix_of_strstr (by simpa using hhit))

/-- Behind the file nothing is read. -/
theorem overlay_behind (b : Buffer) {r : ℕ} (hr : c.file.length ≤ r * BUFFSIZE) :
    b.overlay c.file r = b := by
  have hnil : recordAt c.file r = [] := by
    unfold recordAt
    rw [List.drop_eq_nil_of_le hr, List.take_nil]
  unfold Buffer.overlay
  rw [hnil]
  rfl

/-! ## A thread alone -/

/-- What is in buffer `j` of a thread that has taken all `k` batches. -/
def Setting.alone (c : Setting T) (j : ℕ) : ℕ → Buffer
  | 0 => { bytes := List.replicate BUFFSIZE 0, record := none }
  | k + 1 => (c.alone j k).overlay c.file (k * c.recordsNo + j)

/-- Its buffers have their full length. -/
theorem length_alone (j k : ℕ) : (c.alone j k).bytes.length = BUFFSIZE := by
  induction k with
  | zero => exact List.length_replicate
  | succ k ih => exact length_overlay c.file _ ih

/-- A thread that takes all batches finds the word in batch `k`. -/
def Setting.FoundIn (c : Setting T) (k : ℕ) : Prop :=
  ∃ j, j < c.recordsNo ∧ strstr (c.alone j (k + 1)).bytes c.word = true

/-- A thread that takes all batches finds the word. -/
def Setting.FoundAlone (c : Setting T) : Prop :=
  ∃ k, c.FoundIn k

/-- Thread `t` has taken all `k` batches, and the others have not begun. -/
structure Alone (c : Setting T) (t : Fin T) (k : ℕ) (s : State T) : Prop where
  at_lock : AtLock c k s t
  buffer : ∀ j, j < c.recordsNo → (s.thread t).readingBuffer j = c.alone j k
  others : ∀ x, x ≠ t → s.thread x = (start c).thread x

/-- In the beginning no batch has been taken. -/
theorem alone_start (t : Fin T) : Alone c t 0 (start c) := by
  constructor
  · constructor
    · rfl
    · rfl
    · rfl
    · simp [start]
  · intro j _
    rfl
  · intro x _
    rfl

/-- What a round leaves in the buffers of a thread alone. -/
theorem Alone.buffer_after {t : Fin T} (h : Alone c t k s) (hdone : RoundDone c s s' t k) {j : ℕ}
    (hj : j < c.recordsNo) : (s'.thread t).readingBuffer j = c.alone j (k + 1) := by
  rw [hdone.batch.buffer j hj, h.buffer j hj]
  rfl

/-- **A thread alone takes another batch**, if it does not find the word. -/
theorem Alone.round {t : Fin T} (h : Alone c t k s) (hsearch : c.Searches k)
    (hpos : 0 < c.recordsNo) (hmiss : ¬ c.FoundIn k) :
    ∃ l s', (program c).system.Run s l s' ∧ l ≠ [] ∧ Alone c t (k + 1) s' := by
  obtain ⟨l, s', hrun, hnil, hdone⟩ := h.at_lock.round hsearch hpos
  refine ⟨l, s', hrun, hnil, ?_⟩
  rcases hdone.outcome with ⟨hlock, -⟩ | ⟨j, hprint⟩
  · constructor
    · exact hlock
    · intro j hj
      exact h.buffer_after hdone hj
    · intro x hx
      rw [hdone.batch.other x hx]
      exact h.others x hx
  · have hhit := hprint.hit
    rw [h.buffer_after hdone hprint.more] at hhit
    exact absurd ⟨j, hprint.more, hhit⟩ hmiss

/-- One thread can take all batches up to the first with the word. -/
theorem alone_run {t : Fin T} (hpos : 0 < c.recordsNo) (k : ℕ)
    (hsearch : ∀ q, q < k → c.Searches q) (hmiss : ∀ q, q < k → ¬ c.FoundIn q) :
    ∃ l s, (program c).system.Run (start c) l s ∧ Alone c t k s := by
  induction k with
  | zero => exact ⟨[], start c, .nil _, alone_start t⟩
  | succ k ih =>
    obtain ⟨l, s, hrun, h⟩ := ih (fun q hq => hsearch q (by omega)) (fun q hq => hmiss q (by omega))
    obtain ⟨m, s', hrun', -, h'⟩ :=
      h.round (hsearch k (Nat.lt_succ_self k)) hpos (hmiss k (Nat.lt_succ_self k))
    exact ⟨l ++ m, s', hrun.append hrun', h'⟩

/-- **A thread alone finds the word**, if it can. -/
theorem found_run {t : Fin T} (hpos : 0 < c.recordsNo) (hsearch : ∀ q, c.Searches q)
    (hfound : c.FoundAlone) :
    ∃ k l s j, (program c).system.Run (start c) l s ∧ c.FoundIn k ∧ AtPrint c s t j ∧
      s.mutex = none ∧ s.offset = min c.file.length ((k + 1) * c.recordsNo * BUFFSIZE) ∧
      ∀ x, x ≠ t → s.thread x = (start c).thread x := by
  classical
  have hleast : ∀ q, q < Nat.find hfound → ¬ c.FoundIn q := fun q hq => Nat.find_min hfound hq
  have hin : c.FoundIn (Nat.find hfound) := Nat.find_spec hfound
  generalize Nat.find hfound = k at hleast hin
  obtain ⟨l, s, hrun, h⟩ := alone_run (t := t) hpos k (fun q _ => hsearch q) hleast
  obtain ⟨m, s', hrun', -, hdone⟩ := h.at_lock.round (hsearch k) hpos
  rcases hdone.outcome with ⟨-, hmiss⟩ | ⟨j, hprint⟩
  · obtain ⟨j, hj, hhit⟩ := hin
    have hfalse := hmiss j hj
    rw [h.buffer_after hdone hj, hhit] at hfalse
    cases hfalse
  · refine ⟨k, l ++ m, s', j, hrun.append hrun', hin, hprint, hdone.free, hdone.batch.offset, ?_⟩
    intro x hx
    rw [hdone.batch.other x hx]
    exact h.others x hx

/-! ## Rounds over whole records -/

/-- All threads are between two turns, with buffers of their full length. -/
structure Resting (c : Setting T) (k : ℕ) (s : State T) : Prop where
  at_lock : ∀ t, AtLock c k s t
  length : ∀ t j, j < c.recordsNo → ((s.thread t).readingBuffer j).bytes.length = BUFFSIZE

/-- All threads rest in the beginning. -/
theorem resting_start : Resting c 0 (start c) := by
  constructor
  · exact fun t => (alone_start t).at_lock
  · intro t j _
    exact List.length_replicate

/-- The buffers after a round have their full length. -/
theorem Resting.length_after (h : Resting c k s) {t : Fin T} (hdone : RoundDone c s s' t k)
    (x : Fin T) {j : ℕ} (hj : j < c.recordsNo) :
    ((s'.thread x).readingBuffer j).bytes.length = BUFFSIZE := by
  by_cases hx : x = t
  · rw [hx, hdone.batch.buffer j hj]
    exact length_overlay c.file _ (h.length t j hj)
  · rw [hdone.batch.other x hx]
    exact h.length x j hj

/-- **A round over whole records** does not find the word. -/
theorem Resting.round (h : Resting c k s) (t : Fin T) (hsearch : c.Searches k)
    (hpos : 0 < c.recordsNo) (hword : ∀ r, ¬ c.Contains r)
    (hwhole : (k + 1) * c.recordsNo * BUFFSIZE ≤ c.file.length) :
    ∃ l s', (program c).system.Run s l s' ∧ Resting c (k + 1) s' ∧ HasBatch c s s' t k := by
  obtain ⟨l, s', hrun, -, hdone⟩ := (h.at_lock t).round hsearch hpos
  refine ⟨l, s', hrun, ?_, hdone.batch⟩
  rcases hdone.outcome with ⟨hlock, -⟩ | ⟨j, hprint⟩
  · constructor
    · intro x
      by_cases hx : x = t
      · rw [hx]
        exact hlock
      · constructor
        · rw [hdone.batch.other x hx]
          exact (h.at_lock x).pc
        · exact hlock.free
        · rw [hdone.batch.other x hx]
          exact (h.at_lock x).live
        · exact hlock.offset
    · intro x j hj
      exact h.length_after hdone x hj
  · have hj := hprint.more
    have hhit := hprint.hit
    have hle : (k * c.recordsNo + j + 1) * BUFFSIZE ≤ (k + 1) * c.recordsNo * BUFFSIZE := by
      apply Nat.mul_le_mul_right
      rw [Nat.succ_mul]
      omega
    rw [hdone.batch.buffer j hj,
      strstr_overlay_whole hword (h.length t j hj) (Nat.le_trans hle hwhole)] at hhit
    cases hhit

/-- In version 1 a batch of whole records is searched. -/
theorem searches_of_whole (hv : c.version = .one) (hpos : 0 < c.recordsNo)
    (hwhole : (k + 1) * c.recordsNo * BUFFSIZE ≤ c.file.length) : c.Searches k := by
  refine .inr ⟨hv, ?_⟩
  intro hnil
  have hlen := congrArg List.length hnil
  unfold recordAt at hlen
  rw [List.length_take, List.length_drop, List.length_nil] at hlen
  have hB := BUFFSIZE_pos
  have hlt : (k * c.recordsNo + c.recordsNo - 1) * BUFFSIZE < (k + 1) * c.recordsNo * BUFFSIZE := by
    apply Nat.mul_lt_mul_of_pos_right _ hB
    rw [Nat.succ_mul]
    omega
  omega

/-- **Whatever may be in a buffer**, a schedule of version 1 puts it into the buffer of thread
`a`: that thread and another one take the batches, all of whole records. -/
theorem Holds.resting_run {i : ℕ} {b : Buffer} (h : Holds c i k b) (hv : c.version = .one)
    (hpos : 0 < c.recordsNo) (hword : ∀ r, ¬ c.Contains r) {a d : Fin T} (hne : d ≠ a)
    (hi : i < c.recordsNo) (hwhole : k * c.recordsNo * BUFFSIZE ≤ c.file.length) :
    ∃ l s, (program c).system.Run (start c) l s ∧ Resting c k s ∧
      (s.thread a).readingBuffer i = b := by
  have hbefore : ∀ {k : ℕ}, (k + 1) * c.recordsNo * BUFFSIZE ≤ c.file.length →
      k * c.recordsNo * BUFFSIZE ≤ c.file.length := by
    intro k hle
    apply Nat.le_trans _ hle
    apply Nat.mul_le_mul_right
    apply Nat.mul_le_mul_right
    exact Nat.le_succ k
  induction h with
  | clear => exact ⟨[], start c, .nil _, resting_start, rfl⟩
  | @skip k b _ ih =>
    obtain ⟨l, s, hrun, hrest, hb⟩ := ih (hbefore hwhole)
    obtain ⟨m, s', hrun', hrest', hbatch⟩ :=
      hrest.round d (searches_of_whole hv hpos hwhole) hpos hword hwhole
    refine ⟨l ++ m, s', hrun.append hrun', hrest', ?_⟩
    rw [hbatch.other a (fun heq => hne heq.symm)]
    exact hb
  | @read k b _ ih =>
    obtain ⟨l, s, hrun, hrest, hb⟩ := ih (hbefore hwhole)
    obtain ⟨m, s', hrun', hrest', hbatch⟩ :=
      hrest.round a (searches_of_whole hv hpos hwhole) hpos hword hwhole
    refine ⟨l ++ m, s', hrun.append hrun', hrest', ?_⟩
    rw [hbatch.buffer i hi, hb]

end SystemyOperacyjne.WordSearch
