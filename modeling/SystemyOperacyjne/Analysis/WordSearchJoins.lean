import SystemyOperacyjne.Analysis.WordSearchCalm
import SystemyOperacyjne.Analysis.WordSearchRequests
import SystemyOperacyjne.Analysis.WordSearchRuns
import SystemyOperacyjne.Library.Census

/-!
# Whether version 2 of the search can end

A thread that has found the word cancels the others, and a cancelled thread dies at its next
read, in the middle of its turn, without releasing the mutex. One such thread does no harm to
the one that found the word; a third thread that waits for the mutex waits for ever. So with
two threads at most everybody can end once the word has been found, and with three there is
a schedule after which somebody never can, as soon as the word can be found at all.
-/

set_option autoImplicit false

namespace SystemyOperacyjne.WordSearch

open Library

variable {T : ℕ} {c : Setting T} {s s' : State T} {e : Option (Report T)}
  {l : List (Option (Report T))}

/-- Some thread has found the word: it has printed the record or is about to. -/
def Found (l : List (Option (Report T))) (s : State T) : Prop :=
  (∃ report, some report ∈ l) ∨ ∃ t i, (s.thread t).pc = .print i

/-- It is possible for every thread to end. -/
def CanEnd (c : Setting T) (s : State T) : Prop :=
  ∃ l s', (program c).system.Run s l s' ∧ s'.ended

/-! ## Where the word cannot be found -/

/-- **Version 2 stays calm** until a record is printed. -/
theorem Calm.step_two {k : ℕ} (h : Calm c k s) (hv : c.version = .two) (step : Step c s e s') :
    (∃ t i, (s.thread t).pc = .print i) ∨ e = none ∧ ∃ k', Calm c k' s' := by
  cases step with
  | acquire hpc hfree => exact .inr ⟨rfl, k, h.acquire hpc hfree⟩
  | read hpc more => exact .inr ⟨rfl, k, h.read hpc more⟩
  | @goto t pc move =>
    refine .inr ⟨rfl, k, h.move (by rw [hv]; decide) move ?_⟩
    intro heof
    have hpcs := h.pcs t
    rw [(move.eof_inv heof).1] at hpcs
    exact absurd (hv.symm.trans hpcs) (by decide)
  | release hpc =>
    refine .inr ⟨rfl, k + 1, ?_⟩
    rw [if_pos hv]
    apply h.release hpc
    · exact trivial
    · rfl
    · rfl
    · intro i hi
      cases hi
  | print hpc => exact .inl ⟨_, _, hpc⟩
  | @releaseEof t hpc | @cancelEof t j hpc | @cancel t j hpc =>
    have hpcs := h.pcs t
    rw [hpc] at hpcs
    exact hpcs.elim

/-- A word that cannot be found is not found. -/
theorem not_found (hv : c.version = .two) (hnot : ¬ c.Findable)
    (run : (program c).system.Run (start c) l s) : ¬ Found l s := by
  have h : (∀ a ∈ l, a = none) ∧ ∃ k, Calm c k s := by
    apply run.history_induction (I := fun l s => (∀ a ∈ l, a = none) ∧ ∃ k, Calm c k s)
    · intro l s e s' ⟨hl, k, hcalm⟩ hstep
      rcases hcalm.step_two hv (.of_system hstep) with ⟨t, i, hpc⟩ | ⟨he, hcalm'⟩
      · exact absurd (hcalm.findable hpc) hnot
      · refine ⟨?_, hcalm'⟩
        intro a ha
        rcases List.mem_append.mp ha with ha | ha
        · exact hl a ha
        · exact (List.mem_singleton.mp ha).trans he
    · exact ⟨by simp, 0, calm_start⟩
  obtain ⟨hl, k, hcalm⟩ := h
  intro hfound
  rcases hfound with ⟨report, hreport⟩ | ⟨t, i, hpc⟩
  · cases hl _ hreport
  · exact hnot (hcalm.findable hpc)

/-! ## Two threads -/

/-- The thread has found the word. -/
def Pc.Finder : Pc → Prop
  | .print _ | .cancel _ | .loopEnd false | .returned => True
  | _ => False

/-- How far a thread is from its end when the word has been found. -/
def Pc.weight (T recordsNo : ℕ) : Pc → ℕ
  | .loopEnd false | .pause => 1
  | .unlock => 2
  | .read _ => 3
  | .lock => 4
  | .loopEnd true => 5
  | .cancel j => 2 + (T - j)
  | .print _ => 3 + T
  | .search i => 6 + T + (recordsNo - i)
  | _ => 0

/-- How far the threads are from their ends. -/
def State.rank (s : State T) (recordsNo : ℕ) : ℕ :=
  census (fun th => th.pc.weight T recordsNo) s.thread

/-- A thread that comes closer to its end brings all closer. -/
theorem rank_lt {recordsNo : ℕ} {t : Fin T} {pc₀ pc : Pc} (hat : (s.thread t).pc = pc₀)
    (hthread : s'.thread = (s.goto t pc).thread)
    (hlt : pc.weight T recordsNo < pc₀.weight T recordsNo) :
    s'.rank recordsNo < s.rank recordsNo := by
  subst hat
  have h := census_update (fun th : Thread => th.pc.weight T recordsNo) s.thread t
    { s.thread t with pc := pc }
  unfold State.rank
  rw [hthread]
  unfold State.goto State.setThread
  dsimp only at h ⊢
  omega

/-- A request to cancel moves nobody. -/
theorem rank_cancelOther (recordsNo : ℕ) (t j : Fin T) :
    (s.cancelOther t j).rank recordsNo = s.rank recordsNo := by
  unfold State.rank census
  simp only [State.cancelOther_pc]

/-- A thread that has found the word goes on to its end. -/
theorem finder_onward (hv : c.version = .two) {f : Fin T} (hf : (s.thread f).pc.Finder)
    (hlive : (s.thread f).pc.ended ≠ true) :
    ∃ e s', run c s f = some (e, s') ∧ (s'.thread f).pc.Finder ∧
      s'.rank c.recordsNo < s.rank c.recordsNo := by
  have hthree : c.version ≠ .three := by
    rw [hv]
    decide
  unfold run
  dsimp only
  cases hpc : (s.thread f).pc with
  | print i =>
    dsimp only
    rw [if_neg hthree]
    refine ⟨_, _, rfl, ?_, rank_lt hpc rfl ?_⟩
    · rw [State.goto_self]
      exact trivial
    · show 2 + (T - 0) < 3 + T
      omega
  | cancel j =>
    dsimp only
    by_cases hj : j < T
    · rw [dif_pos hj]
      refine ⟨_, _, rfl, ?_, ?_⟩
      · rw [State.goto_self]
        exact trivial
      · rw [← rank_cancelOther (s := s) c.recordsNo f ⟨j, hj⟩]
        apply rank_lt ((State.cancelOther_pc f ⟨j, hj⟩ f).trans hpc) rfl
        show 2 + (T - (j + 1)) < 2 + (T - j)
        omega
    · rw [dif_neg hj]
      refine ⟨_, _, rfl, ?_, rank_lt hpc rfl ?_⟩
      · rw [State.goto_self]
        exact trivial
      · show 1 < 2 + (T - j)
        omega
  | loopEnd keepGoing =>
    cases keepGoing with
    | true =>
      rw [hpc] at hf
      exact hf.elim
    | false =>
      dsimp only
      rw [if_neg hthree]
      refine ⟨_, _, rfl, ?_, rank_lt hpc rfl Nat.zero_lt_one⟩
      rw [State.goto_self]
      exact trivial
  | returned =>
    rw [hpc] at hlive
    exact absurd rfl hlive
  | _ =>
    rw [hpc] at hf
    exact hf.elim

/-- **A cancelled thread goes on** to its end, unless it waits for a mutex that is taken. -/
theorem cancelled_onward (hv : c.version = .two) {x : Fin T} (hpcs : (s.thread x).pc.InTwo)
    (hx : ¬ (s.thread x).pc.Finder) (hlive : (s.thread x).pc.ended ≠ true)
    (hreq : (s.thread x).cancelRequested = true)
    (hfree : (s.thread x).pc = .lock → s.mutex = none) :
    ∃ e s' pc, run c s x = some (e, s') ∧ s'.thread = (s.goto x pc).thread ∧
      s'.rank c.recordsNo < s.rank c.recordsNo := by
  unfold run
  dsimp only
  cases hpc : (s.thread x).pc with
  | lock =>
    dsimp only
    rw [if_pos (hfree hpc)]
    exact ⟨_, _, _, rfl, rfl, rank_lt hpc rfl (Nat.lt_succ_self 3)⟩
  | read i =>
    dsimp only
    by_cases hi : i < c.recordsNo
    · rw [if_pos hi, if_pos ⟨hv, hreq⟩]
      exact ⟨_, _, _, rfl, rfl, rank_lt hpc rfl (Nat.zero_lt_succ 2)⟩
    · rw [if_neg hi, if_neg (by rw [hv]; decide)]
      exact ⟨_, _, _, rfl, rfl, rank_lt hpc rfl (Nat.lt_succ_self 2)⟩
  | unlock =>
    dsimp only
    rw [if_pos hv]
    exact ⟨_, _, _, rfl, rfl, rank_lt hpc rfl (Nat.lt_succ_self 1)⟩
  | pause =>
    dsimp only
    rw [if_pos hreq]
    exact ⟨_, _, _, rfl, rfl, rank_lt hpc rfl Nat.zero_lt_one⟩
  | search i =>
    dsimp only
    by_cases hi : i < c.recordsNo
    · rw [if_pos hi]
      refine ⟨_, _, _, rfl, rfl, rank_lt hpc rfl ?_⟩
      split
      · show 3 + T < 6 + T + (c.recordsNo - i)
        omega
      · show 6 + T + (c.recordsNo - (i + 1)) < 6 + T + (c.recordsNo - i)
        omega
    · rw [if_neg hi]
      refine ⟨_, _, _, rfl, rfl, rank_lt hpc rfl ?_⟩
      show 5 < 6 + T + (c.recordsNo - i)
      omega
  | loopEnd keepGoing =>
    cases keepGoing with
    | true =>
      dsimp only
      rw [if_neg (by rw [hv]; decide), if_pos rfl]
      exact ⟨_, _, _, rfl, rfl, rank_lt hpc rfl (Nat.lt_succ_self 4)⟩
    | false =>
      rw [hpc] at hx
      exact absurd trivial hx
  | print i | cancel j =>
    rw [hpc] at hx
    exact absurd trivial hx
  | returned | cancelled =>
    rw [hpc] at hlive
    exact absurd rfl hlive
  | _ =>
    rw [hpc] at hpcs
    exact hpcs.elim

/-- **With two threads at most** a thread can always go on, once one has found the word: first
the one that found it, then the other one, whom it has cancelled and whom nobody keeps from the
mutex. -/
theorem Orderly.onward (h : Orderly s) (hv : c.version = .two) (hT : T ≤ 2)
    (hf : ∃ f, (s.thread f).pc.Finder) (hnot : ¬ s.ended) :
    ∃ e s', (program c).system.step s e s' ∧ True ∧
      (Orderly s' ∧ ∃ f, (s'.thread f).pc.Finder) ∧ s'.rank c.recordsNo < s.rank c.recordsNo := by
  obtain ⟨f, hf⟩ := hf
  by_cases hall : ∃ g, (s.thread g).pc.Finder ∧ (s.thread g).pc.ended ≠ true
  · obtain ⟨g, hg, hlive⟩ := hall
    obtain ⟨e, s', hrun, hfinder, hlt⟩ := finder_onward hv hg hlive
    exact ⟨e, s', step_run hrun, trivial, ⟨h.step hv (.of_run hrun), g, hfinder⟩, hlt⟩
  · have hreturned : (s.thread f).pc = .returned := by
      have hended : (s.thread f).pc.ended = true := by
        by_contra hlive
        exact hall ⟨f, hf, hlive⟩
      cases hpc : (s.thread f).pc with
      | returned => rfl
      | cancelled => rw [hpc] at hf; exact hf.elim
      | _ => rw [hpc] at hended; cases hended
    obtain ⟨x, hx⟩ := not_forall.mp hnot
    have hne : x ≠ f := by
      intro heq
      rw [heq, hreturned] at hx
      exact hx rfl
    have hreq := h.asked f x hne (by rw [hreturned]; exact x.isLt)
    have hfree : (s.thread x).pc = .lock → s.mutex = none := by
      intro hlock
      cases hmutex : s.mutex with
      | none => rfl
      | some d =>
        -- neither of the two threads holds it
        have hheld := h.held d hmutex
        have hdx : d ≠ x := by
          intro heq
          rw [heq, hlock] at hheld
          simp [Pc.critical] at hheld
        have hdf : d ≠ f := by
          intro heq
          rw [heq, hreturned] at hheld
          simp [Pc.critical] at hheld
        omega
    obtain ⟨e, s', pc, hrun, hthread, hlt⟩ := cancelled_onward hv (h.pcs x)
      (fun hfinder => hall ⟨x, hfinder, hx⟩) hx hreq hfree
    refine ⟨e, s', step_run hrun, trivial, ⟨h.step hv (.of_run hrun), f, ?_⟩, hlt⟩
    rw [hthread, State.goto_of_ne (fun heq => hne heq.symm)]
    exact hf

/-- **Two threads can end** when one of them has found the word. -/
theorem Orderly.canEnd (h : Orderly s) (hv : c.version = .two) (hT : T ≤ 2)
    (hf : ∃ f, (s.thread f).pc.Finder) : CanEnd c s := by
  obtain ⟨l, s', hrun, -, hended, -⟩ := System.drain _ (fun s => s.rank c.recordsNo)
    (fun s (h : Orderly s ∧ ∃ f, (s.thread f).pc.Finder) hnot => h.1.onward hv hT h.2 hnot) ⟨h, hf⟩
  exact ⟨l, s', hrun, hended⟩

/-- A thread that cancels the others has found the word. -/
theorem Pc.Committed.finder {pc : Pc} (h : pc.Committed) : pc.Finder := by
  cases pc with
  | cancel => exact trivial
  | loopEnd keepGoing =>
    cases keepGoing with
    | true => exact h.elim
    | false => exact trivial
  | returned => exact trivial
  | _ => exact h.elim

/-! ## Three threads -/

/-- **Thread `x` waits for ever**: the mutex is held by a thread that is not in its turn. -/
structure Stuck (s : State T) (d x : Fin T) : Prop where
  mutex : s.mutex = some d
  idle : ∀ t, (s.thread t).pc.critical = false
  waits : (s.thread x).pc = .lock

/-- A thread that waits has not ended. -/
theorem Stuck.not_ended {d x : Fin T} (h : Stuck s d x) : ¬ s.ended := by
  intro hended
  have hx := hended x
  rw [h.waits] at hx
  cases hx

/-- A thread that is not in its turn does not come into it without the mutex. -/
theorem Goto.idle (hv : c.version = .two) {t : Fin T} {pc : Pc} (move : Goto c s t pc)
    (h : (s.thread t).pc.critical = false) :
    pc.critical = false ∧ (s.thread t).pc ≠ .lock := by
  cases move with
  | dieReading hpc | readAll hpc | eof hpc | notEof hpc | eofCancelled hpc =>
    rw [hpc] at h
    cases h
  | die may =>
    refine ⟨rfl, ?_⟩
    intro hlock
    unfold mayDie at may
    simp [hv, hlock] at may
  | diePausing hpc | paused hpc | found hpc | missed hpc | searched hpc | cancelledAll hpc
  | again hpc | finish hpc => simp [hpc, Pc.critical]

/-- Another thread takes a step outside its turn. -/
theorem Stuck.move {d x : Fin T} (h : Stuck s d x) {t : Fin T} (hlock : (s.thread t).pc ≠ .lock)
    (hidle : (s'.thread t).pc.critical = false)
    (hothers : ∀ y, y ≠ t → (s'.thread y).pc = (s.thread y).pc) (hmutex : s'.mutex = s.mutex) :
    Stuck s' d x := by
  have hne : x ≠ t := by
    intro heq
    rw [← heq] at hlock
    exact hlock h.waits
  constructor
  · rw [hmutex]
    exact h.mutex
  · intro y
    by_cases hy : y = t
    · rw [hy]
      exact hidle
    · rw [hothers y hy]
      exact h.idle y
  · rw [hothers x hne]
    exact h.waits

/-- It waits on, whatever is done. -/
theorem Stuck.step {d x : Fin T} (h : Stuck s d x) (hv : c.version = .two)
    (step : Step c s e s') : Stuck s' d x := by
  cases step with
  | acquire hpc hfree =>
    rw [h.mutex] at hfree
    cases hfree
  | @goto t pc move =>
    obtain ⟨hidle, hlock⟩ := move.idle hv (h.idle t)
    apply h.move hlock
    · rw [State.goto_self]
      exact hidle
    · intro y hy
      rw [State.goto_of_ne hy]
    · rfl
  | @cancel t j hpc =>
    apply h.move (t := t)
    · simp [hpc]
    · rw [State.goto_self]
      rfl
    · intro y hy
      rw [State.goto_of_ne hy, State.cancelOther_pc]
    · rw [State.goto_mutex, State.cancelOther_mutex]
  | @print t i hpc =>
    rw [if_neg (by rw [hv]; decide)]
    apply h.move (t := t)
    · simp [hpc]
    · rw [State.goto_self]
      rfl
    · intro y hy
      rw [State.goto_of_ne hy]
    · rfl
  | @read t i hpc | @releaseEof t hpc | @release t hpc | @cancelEof t j hpc =>
    -- the thread would be in its turn
    have hidle := h.idle t
    rw [hpc] at hidle
    cases hidle

/-- So it never ends. -/
theorem Stuck.not_canEnd {d x : Fin T} (h : Stuck s d x) (hv : c.version = .two) :
    ¬ CanEnd c s := by
  intro ⟨l, s', hrun, hended⟩
  have hstuck : Stuck s' d x := by
    apply hrun.history_induction (I := fun _ s => Stuck s d x)
    · intro _ s e s' hs hstep
      exact hs.step hv (.of_system hstep)
    · exact h
  exact hstuck.not_ended hended

/-- All threads are between two turns, and `k` batches have been taken. -/
structure Quiet (c : Setting T) (k : ℕ) (s : State T) : Prop where
  pcs : ∀ t, (s.thread t).pc = .lock
  live : ∀ t, (s.thread t).cancelRequested = false
  mutex : s.mutex = none
  offset : s.offset = min c.file.length (k * c.recordsNo * BUFFSIZE)

/-- Thread `a` has found the word, and all others wait for their turn. -/
structure Hit (s : State T) (a : Fin T) (i : ℕ) : Prop where
  pc : (s.thread a).pc = .print i
  others : ∀ x, x ≠ a → (s.thread x).pc = .lock
  mutex : s.mutex = none

/-- Nobody has begun in the beginning. -/
theorem quiet_start : Quiet c 0 (start c) := by
  constructor
  · exact fun _ => rfl
  · exact fun _ => rfl
  · rfl
  · simp [start]

/-- **A thread takes a batch and searches it**: it finds the word, or all threads are between two
turns again. -/
theorem Quiet.batch_run {k : ℕ} (h : Quiet c k s) (hv : c.version = .two) (t : Fin T) :
    ∃ s', Silently c s s' ∧ ((∃ i, Hit s' t i) ∨ Quiet c (k + 1) s' ∧
      (∀ x, x ≠ t → s'.thread x = s.thread x) ∧ ∀ j, j < c.recordsNo →
        (s'.thread t).readingBuffer j =
          ((s.thread t).readingBuffer j).overlay c.file (k * c.recordsNo + j) ∧
        strstr ((s'.thread t).readingBuffer j).bytes c.word = false) := by
  obtain ⟨s₁, hrun, hbatch, hmutex, hpc⟩ :=
    batch_run_two hv (h.pcs t) h.mutex (h.live t) h.offset
  rcases round_run (by rw [hv]; decide) hpc with ⟨hsearch, hmiss⟩ | ⟨j, hsearch, -, -⟩
  · refine ⟨s₁.goto t .lock, hrun.trans hsearch, .inr ⟨?_, ?_, ?_⟩⟩
    · constructor
      · intro x
        by_cases hx : x = t
        · rw [hx, State.goto_self]
        · rw [State.goto_of_ne hx, hbatch.other x hx]
          exact h.pcs x
      · intro x
        by_cases hx : x = t
        · rw [hx, State.goto_self]
          exact hbatch.cancelRequested.trans (h.live t)
        · rw [State.goto_of_ne hx, hbatch.other x hx]
          exact h.live x
      · exact hmutex
      · exact hbatch.offset
    · intro x hx
      rw [State.goto_of_ne hx, hbatch.other x hx]
    · intro j hj
      rw [State.goto_self]
      exact ⟨hbatch.buffer j hj, hmiss j hj⟩
  · refine ⟨s₁.goto t (.print j), hrun.trans hsearch, .inl ⟨j, ?_⟩⟩
    constructor
    · rw [State.goto_self]
    · intro x hx
      rw [State.goto_of_ne hx, hbatch.other x hx]
      exact h.pcs x
    · exact hmutex

/-- Whatever may be in a buffer, a schedule puts it into the buffer of thread `a`, unless the word
is found before. -/
theorem Holds.run {k i : ℕ} {b : Buffer} (h : Holds c i k b) (hv : c.version = .two)
    {a d : Fin T} (hne : d ≠ a) (hi : i < c.recordsNo) :
    ∃ s, Silently c (start c) s ∧ ((∃ t j, Hit s t j) ∨
      Quiet c k s ∧ (s.thread a).readingBuffer i = b) := by
  induction h with
  | clear => exact ⟨start c, .refl _, .inr ⟨quiet_start, rfl⟩⟩
  | @skip k b _ ih =>
    obtain ⟨s, hrun, ⟨t, j, hhit⟩ | ⟨hquiet, hb⟩⟩ := ih
    · exact ⟨s, hrun, .inl ⟨t, j, hhit⟩⟩
    · -- the other thread takes the batch
      obtain ⟨s', hrun', ⟨j, hhit⟩ | ⟨hquiet', hother, -⟩⟩ := hquiet.batch_run hv d
      · exact ⟨s', hrun.trans hrun', .inl ⟨d, j, hhit⟩⟩
      · refine ⟨s', hrun.trans hrun', .inr ⟨hquiet', ?_⟩⟩
        rw [hother a (fun heq => hne heq.symm)]
        exact hb
  | @read k b _ ih =>
    obtain ⟨s, hrun, ⟨t, j, hhit⟩ | ⟨hquiet, hb⟩⟩ := ih
    · exact ⟨s, hrun, .inl ⟨t, j, hhit⟩⟩
    · obtain ⟨s', hrun', ⟨j, hhit⟩ | ⟨hquiet', -, hbuffers⟩⟩ := hquiet.batch_run hv a
      · exact ⟨s', hrun.trans hrun', .inl ⟨a, j, hhit⟩⟩
      · refine ⟨s', hrun.trans hrun', .inr ⟨hquiet', ?_⟩⟩
        rw [(hbuffers i hi).1, hb]

/-- **Where the word can be found, a schedule finds it**, and the other threads wait for their
turn. -/
theorem Setting.Findable.run (h : c.Findable) (hv : c.version = .two) {a d : Fin T}
    (hne : d ≠ a) : ∃ s t i, Silently c (start c) s ∧ Hit s t i := by
  obtain ⟨k, i, b, hi, hb, hfound⟩ := h
  obtain ⟨s, hrun, ⟨t, j, hhit⟩ | ⟨hquiet, hbuffer⟩⟩ := hb.run hv hne hi
  · exact ⟨s, t, j, hrun, hhit⟩
  · obtain ⟨s', hrun', ⟨j, hhit⟩ | ⟨-, -, hbuffers⟩⟩ := hquiet.batch_run hv a
    · exact ⟨s', a, j, hrun.trans hrun', hhit⟩
    · obtain ⟨heq, hmiss⟩ := hbuffers i hi
      rw [heq, hbuffer, hfound] at hmiss
      cases hmiss

/-- Of three threads two are others. -/
theorem two_others (hT : 3 ≤ T) (a : Fin T) : ∃ d x : Fin T, d ≠ a ∧ x ≠ a ∧ d ≠ x := by
  by_cases h0 : a.val = 0
  · refine ⟨⟨1, by omega⟩, ⟨2, by omega⟩, ?_, ?_, ?_⟩ <;> simp [Fin.ext_iff] <;> omega
  · by_cases h1 : a.val = 1
    · refine ⟨⟨0, by omega⟩, ⟨2, by omega⟩, ?_, ?_, ?_⟩ <;> simp [Fin.ext_iff] <;> omega
    · refine ⟨⟨0, by omega⟩, ⟨1, by omega⟩, ?_, ?_, ?_⟩ <;> simp [Fin.ext_iff] <;> omega

/-- **From a find to a thread that waits for ever**: the finder prints the record and cancels the
others; one of them takes the mutex and dies at its first read, and a third one waits. -/
theorem Hit.stuck {a : Fin T} {i : ℕ} (h : Hit s a i) (hv : c.version = .two) (hT : 3 ≤ T)
    (hpos : 0 < c.recordsNo) :
    ∃ l s' d x, (program c).system.Run s l s' ∧ (∃ report, some report ∈ l) ∧ Stuck s' d x := by
  obtain ⟨d, x, hda, hxa, hdx⟩ := two_others hT a
  have hprint : run c s a =
      some (some ⟨a, (s.thread a).readingBuffer i⟩, s.goto a (.cancel 0)) :=
    run_print h.pc (by rw [hv]; decide)
  obtain ⟨s₂, ⟨l, hrun, -⟩, hcancelled, hend⟩ :=
    cancelling_run (c := c) (s := s.goto a (.cancel 0)) (t := a) .cancel
      (fun _ _ hj hpc => run_cancel hpc hj) (Nat.zero_le T) (by rw [State.goto_self])
  have hothers : ∀ y, y ≠ a → (s₂.thread y).pc = .lock := by
    intro y hy
    rw [hcancelled.pc y hy, State.goto_of_ne hy]
    exact h.others y hy
  have hacquire : run c s₂ d = some (none, { s₂.goto d (.read 0) with mutex := some d }) :=
    run_lock (hothers d hda) (hcancelled.mutex.trans h.mutex)
  have hdie : run c { s₂.goto d (.read 0) with mutex := some d } d =
      some (none, { s₂.goto d .cancelled with mutex := some d }) := by
    have hself : ({ s₂.goto d (.read 0) with mutex := some d } : State T).thread d =
        { s₂.thread d with pc := .read 0 } := State.goto_self ..
    rw [run_dieReading (by rw [hself]) hpos (by
      rw [hself]
      exact ⟨hv, hcancelled.requested d hda (Nat.zero_le _)⟩)]
    show some (none, { (s₂.goto d (.read 0)).goto d .cancelled with mutex := some d }) = _
    rw [State.goto_goto]
  refine ⟨some ⟨a, (s.thread a).readingBuffer i⟩ :: (l ++ [none, none]), _, d, x,
    .cons (step_run hprint) (hrun.append (.cons (step_run hacquire) (.single (step_run hdie)))),
    ⟨_, List.mem_cons_self ..⟩, ?_⟩
  constructor
  · rfl
  · intro y
    show ((s₂.goto d .cancelled).thread y).pc.critical = false
    by_cases hyd : y = d
    · rw [hyd, State.goto_self]
      rfl
    · rw [State.goto_of_ne hyd]
      by_cases hya : y = a
      · rw [hya, hend]
        rfl
      · rw [hothers y hya]
        rfl
  · show ((s₂.goto d .cancelled).thread x).pc = .lock
    rw [State.goto_of_ne (fun heq => hdx heq.symm)]
    exact hothers x hxa

/-- **When version 2 can end**: in every state that some run reaches and in which a thread has
found the word it is possible for every thread to end, exactly if there are two threads at most
or the word cannot be found.
SOURCE: cw08/zad1/main.c:51-57, cw08/zad1/main.c:61-139 -/
theorem canEnd_iff (hv : c.version = .two) :
    (∀ l s, (program c).system.Run (start c) l s → Found l s → CanEnd c s) ↔
      T ≤ 2 ∨ ¬ c.Findable := by
  constructor
  · intro hall
    by_contra hnot
    push Not at hnot
    obtain ⟨hT, hfindable⟩ := hnot
    obtain ⟨s, t, i, ⟨l, hrun, -⟩, hhit⟩ :=
      hfindable.run hv (a := ⟨0, by omega⟩) (d := ⟨1, by omega⟩) (by simp [Fin.ext_iff])
    have hpos : 0 < c.recordsNo := by
      obtain ⟨-, j, -, hj, -⟩ := hfindable
      omega
    obtain ⟨l', s', d, x, hrun', ⟨report, hmem⟩, hstuck⟩ := hhit.stuck hv hT hpos
    apply hstuck.not_canEnd hv
    apply hall (l ++ l') s' (hrun.append hrun')
    exact .inl ⟨report, List.mem_append_right l hmem⟩
  · intro hcond l s run hfound
    rcases hcond with hT | hnot
    · obtain ⟨h, hreport⟩ := orderly hv run
      apply h.canEnd hv hT
      rcases hfound with hprinted | ⟨t, i, hpc⟩
      · obtain ⟨f, hf⟩ := hreport hprinted
        exact ⟨f, hf.finder⟩
      · refine ⟨t, ?_⟩
        rw [hpc]
        exact trivial
    · exact absurd hfound (not_found hv hnot run)

/-- A search for `a` by three threads in a file of one record that begins with it. -/
def threeThreads : Setting 3 where
  version := .two
  recordsNo := 1
  word := [97]
  file := 97 :: List.replicate 1023 0
  charsReaded _ := 0

/-- Three threads and a word that can be found. -/
theorem canEnd_iff_three :
    (∀ l s, (program threeThreads).system.Run (start threeThreads) l s → Found l s →
      CanEnd threeThreads s) ↔ 3 ≤ 2 ∨ ¬ threeThreads.Findable :=
  canEnd_iff rfl

/-- The first thread finds the word, cancels the others and returns; the second one takes the
mutex and dies. -/
def blockedRun : List (Option (Report 3)) × State 3 :=
  ((program threeThreads).exec (start threeThreads)
    (List.replicate 12 (.run 0) ++ [.run 1, .run 1])).get (by decide +kernel)

/-- **The third thread waits for ever.** -/
theorem joins_blocked :
    threeThreads.Contains 0 ∧
    (program threeThreads).system.Run (start threeThreads) blockedRun.1 blockedRun.2 ∧
    Found blockedRun.1 blockedRun.2 ∧ ¬ CanEnd threeThreads blockedRun.2 := by
  refine ⟨by decide +kernel, ?_, ?_, ?_⟩
  · unfold blockedRun
    exact Machine.exec_run_get _
  · refine .inl ⟨⟨0, { bytes := threeThreads.file, record := some 0 }⟩, ?_⟩
    decide +kernel
  · apply Stuck.not_canEnd (d := 1) (x := 2)
    · constructor
      · decide +kernel
      · decide +kernel
      · decide +kernel
    · rfl

end SystemyOperacyjne.WordSearch
