import Mathlib.Data.Nat.Count
import SystemyOperacyjne.Analysis.WordSearchCalm
import SystemyOperacyjne.Analysis.WordSearchRuns
import SystemyOperacyjne.Library.Census

/-!
# Whether version 1 of the search reports a record

A thread that meets the end of the file cancels the others at once, also those that have a batch
with the word and have not come to it yet. Each thread has one batch at a time, so as many
batches with the word can be lost as there are other threads. If there are as many such batches
as threads, one is searched before the end of the file is met, and a record is reported;
if there are fewer, a schedule loses them all.
-/

set_option autoImplicit false

namespace SystemyOperacyjne.WordSearch

open Library

variable {T : ℕ} {c : Setting T} {s s' : State T} {e : Option (Report T)}
  {l : List (Option (Report T))} {k : ℕ}

/-- A record that contains the word has been reported. -/
def HitReported (c : Setting T) (l : List (Option (Report T))) : Prop :=
  ∃ report r, some report ∈ l ∧ report.buffer.record = some r ∧ r < c.records ∧ c.Contains r

/-- The batch has a record in which `strstr` sees the word. -/
def Setting.Matching (c : Setting T) (q : ℕ) : Prop :=
  ∃ j, j < c.recordsNo ∧ c.Visible (q * c.recordsNo + j)

instance (c : Setting T) : DecidablePred c.Matching :=
  fun _ => inferInstanceAs (Decidable (∃ _, _ ∧ _))

/-- The number of batches in which `strstr` sees the word, among those with all their records. -/
def Setting.matchingBatches (c : Setting T) : ℕ :=
  Nat.count c.Matching (c.records / c.recordsNo)

/-- The thread has yet to come to a record of its batch in which `strstr` sees the word. -/
def Thread.HasHit (c : Setting T) (th : Thread) : Prop :=
  match th.pc with
  | .search i | .print i =>
    ∃ j, j < c.recordsNo ∧ i ≤ j ∧ strstr (th.readingBuffer j).bytes c.word = true
  | _ => False

instance (c : Setting T) : DecidablePred (Thread.HasHit c) := by
  intro th
  unfold Thread.HasHit
  split <;> infer_instance

/-- The threads that have yet to come to a record in which `strstr` sees the word. -/
def State.hits (c : Setting T) (s : State T) : ℕ :=
  census (fun th => if th.HasHit c then 1 else 0) s.thread

/-! ## Enough batches with the word -/

/-- **Nothing is lost so far**: the batches that have been taken are full, and each of them that
has the word is still with a thread that will come to it. -/
structure Pending (c : Setting T) (k : ℕ) (s : State T) : Prop where
  calm : Calm c k s
  full : k * c.recordsNo ≤ c.records
  unlock : ∀ t, (s.thread t).pc = .unlock → (k + 1) * c.recordsNo ≤ c.records
  chars : ∀ t, (s.thread t).pc.critical = true → 0 < (s.thread t).pc.reads c.recordsNo →
    (s.thread t).charsReaded =
      (recordAt c.file (k * c.recordsNo + (s.thread t).pc.reads c.recordsNo - 1)).length
  unread : c.recordsNo = 0 → ∀ t, (s.thread t).charsReaded = c.charsReaded t
  hits : Nat.count c.Matching k ≤ s.hits c

/-- The condition under which version 1 reports a record. -/
def Setting.Enough (c : Setting T) : Prop :=
  0 < T ∧ if c.recordsNo = 0 then ∀ t, c.charsReaded t ≠ 0 else T ≤ c.matchingBatches

/-- Nothing has been lost in the beginning. -/
theorem pending_start : Pending c 0 (start c) := by
  constructor
  · exact calm_start
  · rw [Nat.zero_mul]
    exact Nat.zero_le _
  · intro t h
    cases h
  · intro t h
    cases h
  · intro _ t
    rfl
  · rw [Nat.count_zero]
    exact Nat.zero_le _

/-- A thread's step changes the number of threads with a hit by its own. -/
theorem hits_setThread {t : Fin T} {th : Thread} (hthread : s'.thread = (s.setThread t th).thread) :
    s'.hits c + (if (s.thread t).HasHit c then 1 else 0) =
      s.hits c + if th.HasHit c then 1 else 0 := by
  unfold State.hits
  rw [hthread]
  exact census_update (fun th : Thread => if th.HasHit c then 1 else 0) s.thread t th

/-- A thread that keeps its hit takes none away. -/
theorem hits_mono {t : Fin T} {th : Thread} (hthread : s'.thread = (s.setThread t th).thread)
    (hkept : (s.thread t).HasHit c → th.HasHit c) : s.hits c ≤ s'.hits c := by
  have h := hits_setThread (c := c) hthread
  by_cases hold : (s.thread t).HasHit c
  · rw [if_pos hold, if_pos (hkept hold)] at h
    omega
  · rw [if_neg hold] at h
    omega

/-- **A thread goes on**, no batch having been taken: what it will come to it still will. -/
theorem Pending.goto (h : Pending c k s) {t : Fin T} {pc : Pc} {m : Option (Fin T)}
    (hcalm : Calm c k { s.goto t pc with mutex := m })
    (hunlock : pc = .unlock → (k + 1) * c.recordsNo ≤ c.records)
    (hchars : pc.critical = true → pc.reads c.recordsNo = 0 ∨
      (s.thread t).pc.critical = true ∧ pc.reads c.recordsNo = (s.thread t).pc.reads c.recordsNo)
    (hhit : (s.thread t).HasHit c → ({ s.thread t with pc := pc } : Thread).HasHit c) :
    Pending c k { s.goto t pc with mutex := m } := by
  have hself : ({ s.goto t pc with mutex := m } : State T).thread t =
      { s.thread t with pc := pc } := State.goto_self ..
  have hne : ∀ x, x ≠ t → ({ s.goto t pc with mutex := m } : State T).thread x = s.thread x :=
    fun x hx => State.goto_of_ne hx _
  constructor
  · exact hcalm
  · exact h.full
  · intro x hx
    by_cases hxt : x = t
    · rw [hxt, hself] at hx
      exact hunlock hx
    · rw [hne x hxt] at hx
      exact h.unlock x hx
  · exact LastRead.goto h.chars hchars
  · intro hzero x
    by_cases hxt : x = t
    · rw [hxt, hself]
      exact h.unread hzero t
    · rw [hne x hxt]
      exact h.unread hzero x
  · exact Nat.le_trans h.hits (hits_mono rfl hhit)

/-- **A thread reads.** -/
theorem Pending.read (h : Pending c k s) {t : Fin T} {i : ℕ} (hpc : (s.thread t).pc = .read i)
    (more : i < c.recordsNo) :
    Pending c k ((s.readRecord c.file t i).goto t (.read (i + 1))) := by
  have hcalm := h.calm.read hpc more
  have hread := h.calm.readInto hpc
  generalize (s.readRecord c.file t i).goto t (.read (i + 1)) = s' at hcalm hread ⊢
  have hne := hread.of_ne
  constructor
  · exact hcalm
  · exact h.full
  · intro x hx
    by_cases hxt : x = t
    · rw [hxt, hread.pc] at hx
      cases hx
    · rw [hne x hxt] at hx
      exact h.unlock x hx
  · exact LastRead.read h.chars hread
  · intro hzero
    omega
  · refine Nat.le_trans h.hits (hits_mono hread.thread ?_)
    unfold Thread.HasHit
    rw [hpc]
    exact False.elim

/-- A batch with the word is a hit of the thread that has taken it. -/
theorem Pending.hasHit (h : Pending c k s) (hwhole : c.Whole) {t : Fin T}
    (hpc : (s.thread t).pc = .unlock) (hmatch : c.Matching k) :
    ({ s.thread t with pc := .search 0 } : Thread).HasHit c := by
  obtain ⟨j, hj, hvisible⟩ := hmatch
  have hinside : (s.thread t).pc.critical = true := by rw [hpc]; rfl
  have hreads : (s.thread t).pc.reads c.recordsNo = c.recordsNo := by rw [hpc]; rfl
  obtain ⟨j', b, hb, heq, hj'⟩ := h.calm.fresh t j (hreads.symm ▸ hj)
  rw [if_pos ((h.calm.holder t).mp hinside)] at hj'
  subst hj'
  have hlt : j' * c.recordsNo + j < c.records := by
    have hall := h.unlock t hpc
    rw [Nat.succ_mul] at hall
    omega
  rw [overlay_of_lt hwhole hlt hb.length] at heq
  refine ⟨j, hj, Nat.zero_le j, ?_⟩
  dsimp only
  rw [heq]
  exact hvisible

/-- **A thread releases the mutex.** If its batch has the word, it has it now. -/
theorem Pending.release (h : Pending c k s) (hwhole : c.Whole) {t : Fin T}
    (hpc : (s.thread t).pc = .unlock) :
    Pending c (k + 1) { s.goto t (.search 0) with mutex := none } := by
  have hne : ∀ x, x ≠ t →
      ({ s.goto t (.search 0) with mutex := none } : State T).thread x = s.thread x :=
    fun x hx => State.goto_of_ne hx _
  have hself : ({ s.goto t (.search 0) with mutex := none } : State T).thread t =
      { s.thread t with pc := .search 0 } := State.goto_self ..
  have hcalm := h.calm.release_search hpc
  have hidle := hcalm.idle rfl
  constructor
  · exact hcalm
  · exact h.unlock t hpc
  · intro x hx
    exact absurd (by rw [hx]; rfl) (hidle x)
  · intro x hx
    exact absurd hx (hidle x)
  · intro hzero x
    by_cases hxt : x = t
    · rw [hxt, hself]
      exact h.unread hzero t
    · rw [hne x hxt]
      exact h.unread hzero x
  · have hsum : State.hits c { s.goto t (.search 0) with mutex := none } +
        (if (s.thread t).HasHit c then 1 else 0) =
          s.hits c + if ({ s.thread t with pc := .search 0 } : Thread).HasHit c then 1 else 0 :=
      hits_setThread rfl
    have hold : ¬ (s.thread t).HasHit c := by
      unfold Thread.HasHit
      rw [hpc]
      exact id
    rw [if_neg hold] at hsum
    have hle := h.hits
    rw [Nat.count_succ]
    by_cases hmatch : c.Matching k
    · rw [if_pos (h.hasHit hwhole hpc hmatch)] at hsum
      rw [if_pos hmatch]
      omega
    · rw [if_neg hmatch]
      omega

/-- **Where there are enough batches with the word, no thread meets the end of the file**: all
full batches have been taken, and as many threads as there are batches with the word still have
one, besides the thread that would meet it. -/
theorem Pending.not_eof (h : Pending c k s) (hwhole : c.Whole) (henough : c.Enough) {t : Fin T}
    (hpc : (s.thread t).pc = .testEof) : (s.thread t).charsReaded ≠ 0 := by
  intro hzero
  obtain ⟨-, hcond⟩ := henough
  by_cases hR : c.recordsNo = 0
  · rw [if_pos hR] at hcond
    rw [h.unread hR t] at hzero
    exact hcond t hzero
  · rw [if_neg hR] at hcond
    have hchars := LastRead.at_test h.chars (by omega) hpc
    rw [hzero] at hchars
    have hbehind : c.records ≤ k * c.recordsNo + c.recordsNo - 1 := by
      by_contra hlt
      rw [length_recordAt hwhole (by omega)] at hchars
      exact absurd hchars (by decide)
    have hlast : c.records / c.recordsNo = k := by
      rw [Nat.div_eq_iff (by omega)]
      have hfull := h.full
      constructor
      · exact hfull
      · exact hbehind
    have hfew : s.hits c < T := by
      have hlt : s.hits c < Fintype.card (Fin T) := by
        apply census_lt_card (i := t)
        · intro x
          split
          · exact Nat.le_refl 1
          · exact Nat.zero_le 1
        · rw [if_neg]
          unfold Thread.HasHit
          rw [hpc]
          exact id
      rwa [Fintype.card_fin] at hlt
    have hhits := h.hits
    unfold Setting.matchingBatches at hcond
    rw [hlast] at hcond
    omega

/-- A thread goes on outside its turn. -/
theorem Pending.outside (h : Pending c k s) {t : Fin T} {pc₀ pc : Pc}
    (hat : (s.thread t).pc = pc₀) (hcalm : Calm c k (s.goto t pc)) (hcritical : pc.critical = false)
    (hhit : ({ s.thread t with pc := pc₀ } : Thread).HasHit c →
      ({ s.thread t with pc := pc } : Thread).HasHit c) : Pending c k (s.goto t pc) := by
  subst hat
  apply h.goto hcalm
  · intro hunlock
    rw [hunlock] at hcritical
    cases hcritical
  · intro hin
    rw [hcritical] at hin
    cases hin
  · exact hhit

/-- A thread that goes elsewhere loses nothing. -/
theorem Pending.move (h : Pending c k s) (hv : c.version = .one) (hwhole : c.Whole)
    (henough : c.Enough) {t : Fin T} {pc : Pc} (move : Goto c s t pc) :
    Pending c k (s.goto t pc) := by
  have hcalm : Calm c k (s.goto t pc) := by
    apply h.calm.move (by rw [hv]; decide) move
    intro heof
    obtain ⟨hpc, hzero⟩ := move.eof_inv heof
    exact h.not_eof hwhole henough hpc hzero
  have hpcs := h.calm.pcs t
  cases move with
  | dieReading _ _ version => rw [hv] at version; cases version
  | @readAll i hpc all =>
    rw [hpc] at hpcs
    have hi : i = c.recordsNo := Nat.le_antisymm hpcs all
    rw [if_pos hv] at hcalm ⊢
    apply h.goto hcalm
    · intro hunlock
      cases hunlock
    · intro _
      rw [hpc, hi]
      exact .inr ⟨rfl, rfl⟩
    · unfold Thread.HasHit
      rw [hpc]
      exact False.elim
  | eof hpc hzero => exact absurd hzero (h.not_eof hwhole henough hpc)
  | notEof hpc hsome =>
    apply h.goto hcalm
    · intro _
      -- the last read was one of something, so the batch is full
      by_cases hR : c.recordsNo = 0
      · rw [hR]
        exact Nat.zero_le _
      · have hchars := LastRead.at_test h.chars (by omega) hpc
        by_contra hlt
        rw [Nat.succ_mul] at hlt
        rw [recordAt_eq_nil hwhole (by omega)] at hchars
        exact hsome hchars
    · intro _
      rw [hpc]
      exact .inr ⟨rfl, rfl⟩
    · unfold Thread.HasHit
      rw [hpc]
      exact False.elim
  | diePausing hpc requested =>
    rw [h.calm.live t] at requested
    cases requested
  | paused hpc => exact h.outside hpc hcalm rfl False.elim
  | found hpc => exact h.outside hpc hcalm rfl id
  | @missed i hpc more miss =>
    apply h.outside hpc hcalm rfl
    intro ⟨j, hj, hle, hhit⟩
    have hne : j ≠ i := by
      intro heq
      dsimp only at hhit
      rw [heq, miss] at hhit
      cases hhit
    exact ⟨j, hj, by omega, hhit⟩
  | searched hpc all =>
    apply h.outside hpc hcalm rfl
    intro ⟨j, hj, hle, _⟩
    omega
  | again hpc => exact h.outside hpc hcalm rfl False.elim
  | @finish keepGoing hpc stop =>
    rw [hpc] at hpcs
    have hkeep := stop.resolve_left (by rw [hv]; decide)
    subst hkeep
    exact hpcs.elim
  | die may =>
    have hreq := requested_of_mayDie may
    rw [h.calm.live t] at hreq
    cases hreq
  | eofCancelled hpc | cancelledAll hpc =>
    rw [hpc] at hpcs
    exact hpcs.elim

/-- What a thread prints is a record that contains the word. -/
theorem Pending.print (h : Pending c k s) (hwhole : c.Whole) {t : Fin T} {i : ℕ}
    (hpc : (s.thread t).pc = .print i) : ∃ r, ((s.thread t).readingBuffer i).record = some r ∧
      r < c.records ∧ c.Contains r := by
  have hi := h.calm.pcs t
  rw [hpc] at hi
  obtain ⟨j, b, hb, heq, hj⟩ := h.calm.fresh t i (by rw [hpc]; exact hi)
  have hfree : s.mutex ≠ some t := by
    intro hmutex
    have hcritical := (h.calm.holder t).mpr hmutex
    rw [hpc] at hcritical
    cases hcritical
  rw [if_neg hfree] at hj
  have hlt : j * c.recordsNo + i < c.records := by
    have hle : (j + 1) * c.recordsNo ≤ k * c.recordsNo := Nat.mul_le_mul_right _ hj
    rw [Nat.succ_mul] at hle
    have hfull := h.full
    have hi' : i < c.recordsNo := hi
    omega
  rw [overlay_of_lt hwhole hlt hb.length] at heq
  refine ⟨j * c.recordsNo + i, by rw [heq], hlt, ?_⟩
  have hhit := h.calm.hit t i hpc
  rw [heq] at hhit
  have hinfix : c.word <:+: (recordAt c.file (j * c.recordsNo + i)).takeWhile fun b => b ≠ 0 :=
    of_decide_eq_true hhit
  exact hinfix.trans (List.takeWhile_prefix _).isInfix

/-- **A step loses nothing, or reports a record with the word.** -/
theorem Pending.step (h : Pending c k s) (hv : c.version = .one) (hwhole : c.Whole)
    (henough : c.Enough) (step : Step c s e s') :
    (∃ report r, e = some report ∧ report.buffer.record = some r ∧ r < c.records ∧ c.Contains r) ∨
      ∃ k', Pending c k' s' := by
  cases step with
  | @acquire t hpc hfree =>
    refine .inr ⟨k, h.goto (h.calm.acquire hpc hfree) ?_ ?_ ?_⟩
    · intro hunlock
      cases hunlock
    · intro _
      exact .inl rfl
    · unfold Thread.HasHit
      rw [hpc]
      exact False.elim
  | read hpc more => exact .inr ⟨k, h.read hpc more⟩
  | goto move => exact .inr ⟨k, h.move hv hwhole henough move⟩
  | release hpc =>
    rw [if_neg (by rw [hv]; decide)]
    exact .inr ⟨k + 1, h.release hwhole hpc⟩
  | @releaseEof t hpc | @cancelEof t j hpc | @cancel t j hpc =>
    have hpcs := h.calm.pcs t
    rw [hpc] at hpcs
    exact hpcs.elim
  | @print t i hpc =>
    obtain ⟨r, hr, hlt, hcontains⟩ := h.print hwhole hpc
    exact .inl ⟨_, r, rfl, hr, hlt, hcontains⟩

/-- **In every run** a record has been reported or everything is pending. -/
theorem reported_or_pending (hv : c.version = .one) (hwhole : c.Whole) (henough : c.Enough)
    (run : (program c).system.Run (start c) l s) : HitReported c l ∨ ∃ k, Pending c k s := by
  apply run.history_induction (I := fun l s => HitReported c l ∨ ∃ k, Pending c k s)
  · intro l s e s' h hstep
    rcases h with ⟨report, r, hmem, hr⟩ | ⟨k, h⟩
    · exact .inl ⟨report, r, List.mem_append_left _ hmem, hr⟩
    · rcases h.step hv hwhole henough (.of_system hstep) with ⟨report, r, he, hr⟩ | h'
      · exact .inl ⟨report, r, by simp [he], hr⟩
      · exact .inr h'
  · exact .inr ⟨0, pending_start⟩

/-- Where a thread is before anything is decided, it has not ended. -/
theorem Setting.CalmAt.not_ended {pc : Pc} (h : c.CalmAt pc) : pc.ended = false := by
  cases pc with
  | returned => exact h.elim
  | cancelled => exact h.elim
  | _ => rfl

/-- **A record is reported** when there is more of the word than a thread can lose. -/
theorem hit_reported (hv : c.version = .one) (hwhole : c.Whole) (henough : c.Enough)
    (run : (program c).system.Run (start c) l s) (hended : s.ended) : HitReported c l := by
  rcases reported_or_pending hv hwhole henough run with hreported | ⟨k, h⟩
  · exact hreported
  · have hfalse := (h.calm.pcs ⟨0, henough.1⟩).not_ended
    rw [hended] at hfalse
    cases hfalse

/-! ## Too few batches with the word -/

/-- **Cancelled threads die**, one after another and without a report. -/
theorem dying_run (hv : c.version = .one)
    (h : ∀ x, (s.thread x).pc.ended = true ∨ (s.thread x).cancelRequested = true) :
    ∃ s', Silently c s s' ∧ s'.ended := by
  have progress : ∀ s : State T,
      (∀ x, (s.thread x).pc.ended = true ∨ (s.thread x).cancelRequested = true) → ¬ s.ended →
      ∃ a s', (program c).system.step s a s' ∧ a = none ∧
        (∀ x, (s'.thread x).pc.ended = true ∨ (s'.thread x).cancelRequested = true) ∧
        census (fun th : Thread => if th.pc.ended then 0 else 1) s'.thread <
          census (fun th : Thread => if th.pc.ended then 0 else 1) s.thread := by
    intro s h hnot
    obtain ⟨x, hx⟩ := not_forall.mp hnot
    refine ⟨none, s.goto x .cancelled, ?_, rfl, ?_, ?_⟩
    · exact step_die (mayDie_one hv ((h x).resolve_left hx) (by simpa using hx))
    · intro y
      by_cases hy : y = x
      · rw [hy, State.goto_self]
        exact .inl rfl
      · rw [State.goto_of_ne hy]
        exact h y
    · have hcensus := census_update (fun th : Thread => if th.pc.ended then 0 else 1) s.thread x
        { s.thread x with pc := .cancelled }
      rw [if_neg hx] at hcensus
      unfold State.goto State.setThread
      dsimp only [Pc.ended] at hcensus ⊢
      simp only [if_true] at hcensus
      omega
  obtain ⟨l, s', hrun, hl, hended, -⟩ := System.drain _ _ progress h
  exact ⟨s', ⟨l, hrun, hl⟩, hended⟩

/-- **A thread meets the end of the file**: it cancels the others and leaves, and they die
wherever they are. -/
theorem eof_run (hv : c.version = .one) {t : Fin T} (hpc : (s.thread t).pc = .lock)
    (hfree : s.mutex = none) (hlive : (s.thread t).cancelRequested = false)
    (hoffset : s.offset = min c.file.length (k * c.recordsNo * BUFFSIZE))
    (hzero : (if c.recordsNo = 0 then (s.thread t).charsReaded
      else (recordAt c.file (k * c.recordsNo + c.recordsNo - 1)).length) = 0) :
    ∃ s', Silently c s s' ∧ s'.ended := by
  obtain ⟨s₁, hrun, -, -, hread, hchars⟩ := taking_run hpc hfree hlive hoffset
  rw [hzero] at hchars
  have hfirst : run c s₁ t = some (none, s₁.goto t .testEof) := by
    rw [run_readAll hread, if_pos hv]
  have hsecond : run c (s₁.goto t .testEof) t = some (none, s₁.goto t (.cancelEof 0)) := by
    rw [run_eof (by rw [State.goto_self]) (by rw [State.goto_self]; exact hchars),
      State.goto_goto]
  obtain ⟨s₂, hcancel, hcancelled, hend⟩ :=
    cancelling_run (c := c) (s := s₁.goto t (.cancelEof 0)) (t := t) .cancelEof
      (fun _ _ hj hpc => run_cancelEof hpc hj) (Nat.zero_le T) (by rw [State.goto_self])
  have hthird : run c s₂ t = some (none, s₂.goto t .unlockEof) := run_eofCancelled hend
  have hfourth : run c (s₂.goto t .unlockEof) t =
      some (none, { s₂.goto t .returned with mutex := none }) := by
    rw [run_unlockEof (by rw [State.goto_self]), State.goto_goto]
  obtain ⟨s₃, hdie, hended⟩ := dying_run (s := { s₂.goto t .returned with mutex := none }) hv <| by
    intro x
    show ((s₂.goto t .returned).thread x).pc.ended = true ∨
      ((s₂.goto t .returned).thread x).cancelRequested = true
    by_cases hx : x = t
    · rw [hx, State.goto_self]
      exact .inl rfl
    · rw [State.goto_of_ne hx]
      exact .inr (hcancelled.requested x hx (Nat.zero_le _))
  exact ⟨s₃, hrun.trans ((Silently.run hfirst).trans ((Silently.run hsecond).trans
    (hcancel.trans ((Silently.run hthird).trans ((Silently.run hfourth).trans hdie))))), hended⟩

/-- **Threads with the word stand still**: of the `k` batches that have been taken those with the
word are with threads that have not begun to search, and the other threads are between two
turns. -/
structure Stalled (c : Setting T) (k : ℕ) (s : State T) : Prop where
  pcs : ∀ t, (s.thread t).pc = .lock ∨ (s.thread t).pc = .search 0
  live : ∀ t, (s.thread t).cancelRequested = false
  mutex : s.mutex = none
  offset : s.offset = min c.file.length (k * c.recordsNo * BUFFSIZE)
  length : ∀ t j, j < c.recordsNo → ((s.thread t).readingBuffer j).bytes.length = BUFFSIZE
  still : census (fun th => if th.pc = .lock then 0 else 1) s.thread = Nat.count c.Matching k

/-- Nobody has begun in the beginning. -/
theorem stalled_start : Stalled c 0 (start c) := by
  constructor
  · exact fun _ => .inl rfl
  · exact fun _ => rfl
  · rfl
  · simp [start]
  · exact fun _ _ _ => List.length_replicate
  · rw [Nat.count_zero]
    exact census_eq_zero fun _ => rfl

/-- While there are fewer batches with the word than threads, a thread is between two turns. -/
theorem Stalled.exists_lock (h : Stalled c k s) (hfew : Nat.count c.Matching k < T) :
    ∃ t, (s.thread t).pc = .lock := by
  rw [← h.still] at hfew
  obtain ⟨t, ht⟩ := exists_eq_zero_of_census_lt (by rwa [Fintype.card_fin])
  refine ⟨t, ?_⟩
  by_contra hne
  rw [if_neg hne] at ht
  cases ht

/-- A thread has taken the next batch, and stands still if it has the word. -/
theorem Stalled.batch (h : Stalled c k s) {t : Fin T} (hlock : (s.thread t).pc = .lock)
    (hbatch : HasBatch c s s' t k) (hmutex : s'.mutex = none)
    (hlength : ∀ j, j < c.recordsNo → ((s'.thread t).readingBuffer j).bytes.length = BUFFSIZE)
    {pc : Pc} (hpcs : pc = .lock ∨ pc = .search 0)
    (hstill : (if pc = .lock then 0 else 1) = (if c.Matching k then 1 else 0)) :
    Stalled c (k + 1) (s'.goto t pc) := by
  have hthread : (s'.goto t pc).thread =
      Function.update s.thread t { s'.thread t with pc := pc } := by
    funext x
    by_cases hx : x = t
    · rw [hx, State.goto_self, Function.update_self]
    · rw [State.goto_of_ne hx, Function.update_of_ne hx, hbatch.other x hx]
  constructor
  · intro x
    by_cases hx : x = t
    · rw [hx, State.goto_self]
      exact hpcs
    · rw [State.goto_of_ne hx, hbatch.other x hx]
      exact h.pcs x
  · intro x
    rw [State.goto_cancelRequested]
    by_cases hx : x = t
    · rw [hx]
      exact hbatch.cancelRequested.trans (h.live t)
    · rw [hbatch.other x hx]
      exact h.live x
  · exact hmutex
  · exact hbatch.offset
  · intro x j hj
    rw [State.goto_readingBuffer]
    by_cases hx : x = t
    · rw [hx]
      exact hlength j hj
    · rw [hbatch.other x hx]
      exact h.length x j hj
  · have hcensus := census_update (fun th : Thread => if th.pc = .lock then 0 else 1) s.thread t
      { s'.thread t with pc := pc }
    dsimp only at hcensus
    rw [hlock, if_pos rfl, hstill] at hcensus
    rw [hthread, Nat.count_succ, ← h.still]
    omega

/-- **The next batch**: if it has the word, the thread that takes it stands still as well; if not,
the thread searches it in vain. -/
theorem Stalled.next (h : Stalled c k s) (hv : c.version = .one) (hwhole : c.Whole)
    (hpos : 0 < c.recordsNo) (hfew : Nat.count c.Matching k < T)
    (hfull : (k + 1) * c.recordsNo ≤ c.records) :
    ∃ s', Silently c s s' ∧ Stalled c (k + 1) s' := by
  obtain ⟨t, hlock⟩ := h.exists_lock hfew
  rw [Nat.succ_mul] at hfull
  have hsome : recordAt c.file (k * c.recordsNo + c.recordsNo - 1) ≠ [] := by
    intro hnil
    have hlen := length_recordAt hwhole (r := k * c.recordsNo + c.recordsNo - 1) (by omega)
    rw [hnil] at hlen
    exact absurd hlen (by decide)
  obtain ⟨s₁, hrun, hbatch, hmutex, hpc⟩ :=
    batch_run_one hv hlock h.mutex (h.live t) h.offset hpos hsome
  have hbuffer : ∀ j, j < c.recordsNo → (s₁.thread t).readingBuffer j =
      { bytes := recordAt c.file (k * c.recordsNo + j), record := some (k * c.recordsNo + j) } := by
    intro j hj
    rw [hbatch.buffer j hj, overlay_of_lt hwhole (by omega) (h.length t j hj)]
  have hlength : ∀ j, j < c.recordsNo →
      ((s₁.thread t).readingBuffer j).bytes.length = BUFFSIZE := by
    intro j hj
    rw [hbuffer j hj]
    exact length_recordAt hwhole (by omega)
  have hsame : s₁.goto t (.search 0) = s₁ := by
    unfold State.goto State.setThread
    rw [← hpc]
    simp
  by_cases hmatch : c.Matching k
  · refine ⟨s₁, hrun, ?_⟩
    rw [← hsame]
    apply h.batch hlock hbatch hmutex hlength
    · exact .inr rfl
    · rw [if_pos hmatch, if_neg (by simp)]
  · rcases round_run (by rw [hv]; decide) hpc with ⟨hsearch, -⟩ | ⟨j, -, hj, hfound⟩
    · refine ⟨s₁.goto t .lock, hrun.trans hsearch, ?_⟩
      apply h.batch hlock hbatch hmutex hlength
      · exact .inl rfl
      · rw [if_neg hmatch, if_pos rfl]
    · rw [hbuffer j hj] at hfound
      exact absurd ⟨j, hj, hfound⟩ hmatch

/-- All batches can be taken before a search begins. -/
theorem stalled_run (hv : c.version = .one) (hwhole : c.Whole) (hpos : 0 < c.recordsNo)
    (hfew : c.matchingBatches < T) (k : ℕ) (hk : k ≤ c.records / c.recordsNo) :
    ∃ s, Silently c (start c) s ∧ Stalled c k s := by
  induction k with
  | zero => exact ⟨start c, .refl _, stalled_start⟩
  | succ k ih =>
    obtain ⟨s, hrun, h⟩ := ih (by omega)
    have hle : Nat.count c.Matching k ≤ c.matchingBatches :=
      Nat.count_monotone c.Matching (by omega)
    obtain ⟨s', hrun', h'⟩ := h.next hv hwhole hpos (by omega)
      ((Nat.le_div_iff_mul_le hpos).mp hk)
    exact ⟨s', hrun.trans hrun', h'⟩

/-- **Where there are too few batches with the word, a schedule reports nothing.** -/
theorem nothing_reported (hv : c.version = .one) (hwhole : c.Whole) (hfew : ¬ c.Enough) :
    ∃ s, Silently c (start c) s ∧ s.ended := by
  by_cases hT : 0 < T
  · by_cases hR : c.recordsNo = 0
    · -- some thread finds a zero in the variable it has not read into
      have hjunk : ∃ t, c.charsReaded t = 0 := by
        by_contra hnone
        apply hfew
        refine ⟨hT, ?_⟩
        rw [if_pos hR]
        intro t hzero
        exact hnone ⟨t, hzero⟩
      obtain ⟨t, ht⟩ := hjunk
      apply eof_run (k := 0) hv (t := t)
      · rfl
      · rfl
      · rfl
      · simp [start]
      · rw [if_pos hR]
        exact ht
    · have hpos : 0 < c.recordsNo := by omega
      have hless : c.matchingBatches < T := by
        by_contra hge
        apply hfew
        refine ⟨hT, ?_⟩
        rw [if_neg hR]
        omega
      obtain ⟨s, hrun, h⟩ := stalled_run hv hwhole hpos hless _ (Nat.le_refl _)
      obtain ⟨t, hlock⟩ := h.exists_lock hless
      have hlast : c.records ≤ c.records / c.recordsNo * c.recordsNo + c.recordsNo - 1 := by
        have hlt := Nat.lt_div_mul_add hpos (a := c.records)
        omega
      obtain ⟨s', hrun', hended⟩ := eof_run hv hlock h.mutex (h.live t) h.offset <| by
        rw [if_neg hR, recordAt_eq_nil hwhole hlast]
        rfl
      exact ⟨s', hrun.trans hrun', hended⟩
  · refine ⟨start c, .refl _, ?_⟩
    intro t
    exact absurd (Nat.lt_of_le_of_lt (Nat.zero_le _) t.isLt) hT

/-- **When version 1 reports a record that contains the word**: in every run after which all
threads have ended one has been reported, exactly if there are threads, and as many full batches
in which `strstr` sees the word as threads; with batches of no records, if no thread finds a zero
where it has read nothing.
SOURCE: cw08/zad1/main.c:42-59, cw08/zad1/main.c:61-139 -/
theorem hit_reported_iff (hv : c.version = .one) (hwhole : c.Whole) :
    (∀ l s, (program c).system.Run (start c) l s → s.ended → HitReported c l) ↔ c.Enough := by
  constructor
  · intro hall
    by_contra hfew
    obtain ⟨s, ⟨l, hrun, hl⟩, hended⟩ := nothing_reported hv hwhole hfew
    obtain ⟨report, r, hmem, -⟩ := hall l s hrun hended
    cases hl _ hmem
  · intro henough l s run hended
    exact hit_reported hv hwhole henough run hended

/-- A search for `a` by one thread, two records at a time, in a file of one record that begins
with it. -/
def partBatch : Setting 1 where
  version := .one
  recordsNo := 2
  word := [97]
  file := 97 :: List.replicate 1023 0
  charsReaded _ := 0

/-- The file is one whole record. -/
theorem partBatch_whole : partBatch.Whole := by
  unfold Setting.Whole
  decide +kernel

/-- The batch is not full, and the record is not searched. -/
theorem hit_reported_iff_part :
    (∀ l s, (program partBatch).system.Run (start partBatch) l s → s.ended →
      HitReported partBatch l) ↔ partBatch.Enough :=
  hit_reported_iff rfl partBatch_whole

/-- For the numerals of `Fin 1`. -/
local instance neZero_thread : NeZero 1 := ⟨by decide⟩

/-- The thread reads the record and then nothing, and leaves. -/
def unsearchedRun : List (Option (Report 1)) × State 1 :=
  ((program partBatch).exec (start partBatch) (List.replicate 8 (.run 0))).get (by decide +kernel)

/-- **The record is lost**: the second read of the batch is one of nothing, so the thread takes the
file to have ended and leaves without searching the record that it has read. -/
theorem hit_lost :
    partBatch.Whole ∧ 0 < partBatch.records ∧ partBatch.Contains 0 ∧
    (program partBatch).system.Run (start partBatch) unsearchedRun.1 unsearchedRun.2 ∧
    unsearchedRun.2.ended ∧ ¬ HitReported partBatch unsearchedRun.1 := by
  refine ⟨partBatch_whole, by decide +kernel, by decide +kernel, ?_, ?_, ?_⟩
  · unfold unsearchedRun
    exact Machine.exec_run_get _
  · unfold State.ended
    decide +kernel
  · intro ⟨report, _, hmem, _⟩
    have hnone : ∀ a ∈ unsearchedRun.1, a = none := by decide +kernel
    cases hnone _ hmem

end SystemyOperacyjne.WordSearch
