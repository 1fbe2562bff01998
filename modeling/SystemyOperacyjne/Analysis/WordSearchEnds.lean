import SystemyOperacyjne.Analysis.WordSearchCrossing

/-!
# Whether the search ends

Where the word is in none of the records, version 3 always ends. Version 1 ends unless a short
last record, over what stood in a buffer, shows the word, and there are three threads: then one
that has found it and one that has met the end of the file can cancel each other, and the second
dies with the mutex, for which a third one waits. Version 2 does not look for the end of the file
and goes on for ever, unless there is one thread only and it finds the word in such a buffer.
-/

set_option autoImplicit false

namespace SystemyOperacyjne.WordSearch

open Library

variable {T : ℕ} {c : Setting T} {s s' : State T} {e : Option (Report T)}
  {l : List (Option (Report T))} {k : ℕ}

/-- All threads have come to their ends: they have returned, or, where there are others that may
do so, one of them has cancelled them. -/
def Setting.Finished (c : Setting T) (s : State T) : Prop :=
  ∀ t, (s.thread t).pc = .returned ∨
    c.version ≠ .three ∧ 1 < T ∧ (s.thread t).pc = .cancelled

/-- The condition under which the search ends, if the word is in none of the records. -/
def Setting.Stops (c : Setting T) : Prop :=
  match c.version with
  | .one => T ≤ 2 ∨ ¬ c.FindableInTurn
  | .two => T = 0 ∨ T = 1 ∧ c.FoundAlone
  | .three => True

/-! ## Who has ended -/

/-- The thread is not where one of version 3 could die, and has not died. -/
def Pc.Safe : Pc → Prop
  | .pause | .cancelled => False
  | _ => True

/-- A thread of version 3 stays safe. -/
theorem Goto.safe (hv : c.version = .three) {t : Fin T} {pc : Pc} (move : Goto c s t pc)
    (h : (s.thread t).pc.Safe) : pc.Safe := by
  cases move with
  | dieReading _ _ version =>
    rw [hv] at version
    cases version
  | readAll =>
    split
    · exact trivial
    · exact trivial
  | diePausing hpc =>
    rw [hpc] at h
    exact h.elim
  | die may => exact absurd hv (not_three_of_mayDie may)
  | _ => exact trivial

/-- A step of version 3 brings its thread to a safe point. -/
theorem Step.safe (hv : c.version = .three) (step : Step c s e s')
    (h : ∀ t, (s.thread t).pc.Safe) (x : Fin T) : (s'.thread x).pc.Safe := by
  have hmove : ∀ t, (∀ y, y ≠ t → (s'.thread y).pc = (s.thread y).pc) →
      (s'.thread t).pc.Safe → (s'.thread x).pc.Safe := by
    intro t hne hself
    by_cases hx : x = t
    · rw [hx]
      exact hself
    · rw [hne x hx]
      exact h x
  cases step with
  | @acquire t hpc =>
    apply hmove t
    · intro y hy
      show ((s.goto t (.read 0)).thread y).pc = _
      rw [State.goto_of_ne hy]
    · show ((s.goto t (.read 0)).thread t).pc.Safe
      rw [State.goto_self]
      exact trivial
  | @read t i =>
    apply hmove t
    · intro y hy
      rw [State.goto_of_ne hy, State.readRecord_of_ne hy]
    · rw [State.goto_self]
      exact trivial
  | @goto t pc move =>
    apply hmove t
    · intro y hy
      rw [State.goto_of_ne hy]
    · rw [State.goto_self]
      exact move.safe hv (h t)
  | @releaseEof t =>
    apply hmove t
    · intro y hy
      show ((s.goto t .returned).thread y).pc = _
      rw [State.goto_of_ne hy]
    · show ((s.goto t .returned).thread t).pc.Safe
      rw [State.goto_self]
      exact trivial
  | @release t =>
    apply hmove t
    · intro y hy
      show ((s.goto t _).thread y).pc = _
      rw [State.goto_of_ne hy]
    · show ((s.goto t _).thread t).pc.Safe
      rw [State.goto_self]
      show Pc.Safe (if c.version = .two then .pause else .search 0)
      rw [if_neg (by rw [hv]; decide)]
      exact trivial
  | @cancelEof t j hpc hj | @cancel t j hpc hj =>
    apply hmove t
    · intro y hy
      rw [State.goto_of_ne hy, State.cancelOther_pc]
    · rw [State.goto_self]
      exact trivial
  | @print t i =>
    apply hmove t
    · intro y hy
      rw [State.goto_of_ne hy]
    · rw [State.goto_self]
      split
      · exact trivial
      · exact trivial

/-- In version 3 no thread dies. -/
theorem safe (hv : c.version = .three) (run : (program c).system.Run (start c) l s) (t : Fin T) :
    (s.thread t).pc.Safe := by
  have h : ∀ t, (s.thread t).pc.Safe := by
    apply run.history_induction (I := fun _ s => ∀ t, (s.thread t).pc.Safe)
    · intro _ s e s' h hstep
      exact Step.safe hv (.of_system hstep) h
    · intro _
      exact trivial
  exact h t

/-- **Who has ended** has returned, unless another has cancelled it. -/
theorem finished_of_ended (run : (program c).system.Run (start c) l s) (h : s.ended) :
    c.Finished s := by
  intro t
  have hended := h t
  cases hpc : (s.thread t).pc with
  | returned => exact .inl rfl
  | cancelled =>
    right
    have hthree : c.version ≠ .three := by
      intro hv
      have hsafe := safe hv run t
      rw [hpc] at hsafe
      exact hsafe
    have hreqs := requests hthree run
    obtain ⟨r, hr, -⟩ := hreqs.requester t (hreqs.died t hpc)
    have hlt := r.isLt
    have hlt' := t.isLt
    have hne := Fin.val_ne_of_ne hr
    exact ⟨hthree, by omega, rfl⟩
  | _ =>
    rw [hpc] at hended
    cases hended

/-- Threads that have come to their ends have ended. -/
theorem Setting.Finished.ended (h : c.Finished s) : s.ended := by
  intro t
  rcases h t with hpc | ⟨-, -, hpc⟩
  · rw [hpc]
    rfl
  · rw [hpc]
    rfl

/-- Where all threads have ended no step is possible. -/
theorem stuck_of_ended (h : s.ended) : (program c).system.Stuck s := by
  intro e s' ⟨choice, hnext⟩
  cases choice with
  | run t =>
    have hended := h t
    have hrun : run c s t = some (e, s') := hnext
    unfold run at hrun
    dsimp only at hrun
    cases hpc : (s.thread t).pc with
    | returned | cancelled =>
      rw [hpc] at hrun
      cases hrun
    | _ =>
      rw [hpc] at hended
      cases hended
  | die t =>
    have hlive := not_ended_of_mayDie (mayDie_of_next hnext)
    rw [h t] at hlive
    cases hlive

/-- **Versions 1 and 3 end** if they stop only where all threads have ended. -/
theorem endsIn_of_stuck (hv : c.version ≠ .two) (hpos : 0 < c.recordsNo)
    (hstuck : ∀ l s, (program c).system.Run (start c) l s → (program c).system.Stuck s →
      s.ended) : (program c).system.EndsIn c.Finished (start c) := by
  apply System.EndsIn.of_rank c.effort
  · intro s e s' hstep
    exact Step.effort_lt hv hpos (.of_system hstep)
  · intro l s run h
    exact finished_of_ended run (hstuck l s run h)

/-! ## Version 2 -/

/-- **Version 2 with a thread that does not find the word alone** does not end: that thread comes
back after every batch. -/
theorem not_ends_alone (hv : c.version = .two) (hpos : 0 < c.recordsNo) (t : Fin T)
    (hnot : ¬ c.FoundAlone) : ¬ (program c).system.EndsIn c.Finished (start c) := by
  refine System.not_endsIn_of_longer (fun s => ∃ k, Alone c t k s) ?_ (.nil _) ⟨0, alone_start t⟩
  intro s ⟨k, h⟩
  obtain ⟨l, s', hrun, hnil, h'⟩ := h.round (.inl hv) hpos (fun hin => hnot ⟨k, hin⟩)
  exact ⟨l, s', hrun, hnil, k + 1, h'⟩

/-- Thread `t` reads nothing any more, and nothing stands in its buffers. -/
structure Idle (c : Setting T) (k : ℕ) (s : State T) (t : Fin T) : Prop where
  at_lock : AtLock c k s t
  behind : c.file.length ≤ k * c.recordsNo * BUFFSIZE
  buffer : ∀ j, j < c.recordsNo →
    ((s.thread t).readingBuffer j).bytes = List.replicate BUFFSIZE 0

/-- **A thread with nothing to read** goes from one round to the next. -/
theorem Idle.round {t : Fin T} (h : Idle c k s t) (hv : c.version = .two) (hpos : 0 < c.recordsNo)
    (hword : ∀ r, ¬ c.Contains r) :
    ∃ l s', (program c).system.Run s l s' ∧ l ≠ [] ∧ Idle c (k + 1) s' t := by
  obtain ⟨l, s', hrun, hnil, hdone⟩ := h.at_lock.round (.inl hv) hpos
  have hbuffer : ∀ j, j < c.recordsNo →
      ((s'.thread t).readingBuffer j).bytes = List.replicate BUFFSIZE 0 := by
    intro j hj
    rw [hdone.batch.buffer j hj, overlay_behind]
    · exact h.buffer j hj
    · exact Nat.le_trans h.behind (Nat.mul_le_mul_right _ (Nat.le_add_right ..))
  refine ⟨l, s', hrun, hnil, ?_⟩
  rcases hdone.outcome with ⟨hlock, -⟩ | ⟨j, hprint⟩
  · constructor
    · exact hlock
    · apply Nat.le_trans h.behind
      apply Nat.mul_le_mul_right
      apply Nat.mul_le_mul_right
      exact Nat.le_succ k
    · exact hbuffer
  · have hhit := hprint.hit
    rw [hbuffer j hprint.more, strstr_clear hword] at hhit
    cases hhit

/-- A thread alone that finds the word has read the file. -/
theorem behind_of_foundIn (hword : ∀ r, ¬ c.Contains r) (h : c.FoundIn k) :
    c.file.length ≤ (k + 1) * c.recordsNo * BUFFSIZE := by
  obtain ⟨j, hj, hhit⟩ := h
  by_contra hlt
  have hwhole : (k * c.recordsNo + j + 1) * BUFFSIZE ≤ c.file.length := by
    have hle : (k * c.recordsNo + j + 1) * BUFFSIZE ≤ (k + 1) * c.recordsNo * BUFFSIZE := by
      apply Nat.mul_le_mul_right
      rw [Nat.succ_mul]
      omega
    omega
  have hmiss := strstr_overlay_whole hword (length_alone (c := c) j k) hwhole
  rw [show c.alone j (k + 1) = (c.alone j k).overlay c.file (k * c.recordsNo + j) from rfl,
    hmiss] at hhit
  cases hhit

/-- **Version 2 with two threads** does not end: once one has read the file, the other goes on
with nothing in its buffers. -/
theorem not_ends_two (hv : c.version = .two) (hpos : 0 < c.recordsNo) (hT : 2 ≤ T)
    (hword : ∀ r, ¬ c.Contains r) : ¬ (program c).system.EndsIn c.Finished (start c) := by
  by_cases hfound : c.FoundAlone
  · obtain ⟨k, l, s, j, hrun, hin, -, hfree, hoffset, hothers⟩ :=
      found_run (t := ⟨0, by omega⟩) hpos (fun _ => .inl hv) hfound
    have hother := hothers ⟨1, by omega⟩ (by simp [Fin.ext_iff])
    refine System.not_endsIn_of_longer (fun s => ∃ k, Idle c k s ⟨1, by omega⟩) ?_ hrun ?_
    · intro s ⟨k, h⟩
      obtain ⟨l, s', hrun, hnil, h'⟩ := h.round hv hpos hword
      exact ⟨l, s', hrun, hnil, k + 1, h'⟩
    · refine ⟨k + 1, ?_⟩
      constructor
      · constructor
        · rw [hother]
          rfl
        · exact hfree
        · rw [hother]
          rfl
        · exact hoffset
      · exact behind_of_foundIn hword hin
      · intro i _
        rw [hother]
        rfl
  · exact not_ends_alone hv hpos ⟨0, by omega⟩ hfound

/-- One thread has no others. -/
theorem eq_of_one (hT : T = 1) (t x : Fin T) : t = x := by
  subst hT
  exact Subsingleton.elim t x

/-- A thread alone cancels nobody. -/
theorem Step.unrequested (hT : T = 1) (step : Step c s e s')
    (h : ∀ t, (s.thread t).cancelRequested = false) (x : Fin T) :
    (s'.thread x).cancelRequested = false := by
  cases step with
  | @acquire t hpc =>
    show ((s.goto t (.read 0)).thread x).cancelRequested = false
    rw [State.goto_cancelRequested]
    exact h x
  | read =>
    rw [State.goto_cancelRequested, State.readRecord_cancelRequested]
    exact h x
  | goto =>
    rw [State.goto_cancelRequested]
    exact h x
  | @releaseEof t =>
    show ((s.goto t .returned).thread x).cancelRequested = false
    rw [State.goto_cancelRequested]
    exact h x
  | @release t =>
    show ((s.goto t _).thread x).cancelRequested = false
    rw [State.goto_cancelRequested]
    exact h x
  | @cancelEof t j hpc hj | @cancel t j hpc hj =>
    rw [State.goto_cancelRequested, State.cancelOther_thread, if_neg]
    · exact h x
    · intro hother
      exact hother.2 (eq_of_one hT _ _)
  | print =>
    rw [State.goto_cancelRequested]
    exact h x

/-- **A thread alone has one step at most.** -/
theorem step_determined (hT : T = 1) (h : ∀ t, (s.thread t).cancelRequested = false)
    {e' : Option (Report T)} {s'' : State T} (step : (program c).system.step s e s')
    (step' : (program c).system.step s e' s'') : e = e' ∧ s' = s'' := by
  have hrun : ∀ {e : Option (Report T)} {s' : State T} (_ : (program c).system.step s e s'),
      run c s ⟨0, by omega⟩ = some (e, s') := by
    intro e s' ⟨choice, hnext⟩
    cases choice with
    | run t =>
      rw [eq_of_one hT ⟨0, by omega⟩ t]
      exact hnext
    | die t =>
      have hreq := requested_of_mayDie (mayDie_of_next hnext)
      rw [h t] at hreq
      cases hreq
  have heq := (hrun step).symm.trans (hrun step')
  cases heq
  exact ⟨rfl, rfl⟩

/-- **A thread that has found the word returns**, when it has cancelled the others. -/
theorem AtPrint.returning_run {t : Fin T} {j : ℕ} (h : AtPrint c s t j)
    (hv : c.version ≠ .three) :
    ∃ l s', (program c).system.Run s l s' ∧ (s'.thread t).pc = .returned := by
  have hprint : run c s t =
      some (some ⟨t, (s.thread t).readingBuffer j⟩, s.goto t (.cancel 0)) :=
    run_print h.pc hv
  obtain ⟨s₁, ⟨l, hrun, -⟩, -, hpc⟩ :=
    cancelling_run (c := c) (s := s.goto t (.cancel 0)) (t := t) .cancel
      (fun _ _ hj hpc => run_cancel hpc hj) (Nat.zero_le T) (by rw [State.goto_self])
  have hend : run c s₁ t = some (none, s₁.goto t (.loopEnd false)) := run_cancelledAll hpc
  have hreturn : run c (s₁.goto t (.loopEnd false)) t = some (none, s₁.goto t .returned) := by
    rw [run_finish (by rw [State.goto_self]), State.goto_goto]
  refine ⟨_, s₁.goto t .returned, .cons (step_run hprint) (hrun.append
    (.cons (step_run hend) (.single (step_run hreturn)))), ?_⟩
  rw [State.goto_self]

/-- **Version 2 with one thread ends** if the thread finds the word. -/
theorem ends_alone (hv : c.version = .two) (hpos : 0 < c.recordsNo) (hT : T = 1)
    (hfound : c.FoundAlone) : (program c).system.EndsIn c.Finished (start c) := by
  obtain ⟨-, l, s, j, hrun, -, hprint, -⟩ :=
    found_run (t := ⟨0, by omega⟩) hpos (fun _ => .inl hv) hfound
  obtain ⟨m, s', hrun', hreturned⟩ := hprint.returning_run (by rw [hv]; decide)
  have hended : s'.ended := by
    intro x
    rw [eq_of_one hT x, hreturned]
    rfl
  apply System.EndsIn.of_deterministic (I := fun s => ∀ t, (s.thread t).cancelRequested = false)
  · intro s e s' h hstep
    exact Step.unrequested hT (.of_system hstep) h
  · intro s e e' s' s'' h hstep hstep'
    exact step_determined hT h hstep hstep'
  · intro t
    rfl
  · exact hrun.append hrun'
  · exact stuck_of_ended hended
  · exact finished_of_ended (hrun.append hrun') hended

/-! ## The three versions -/

/-- **Version 1 with three threads** does not end if a short last record leaves the word visible
in a buffer. -/
theorem not_ends_crossing (hv : c.version = .one) (hpos : 0 < c.recordsNo) (hT : 3 ≤ T)
    (hword : ∀ r, ¬ c.Contains r) (hfindable : c.FindableInTurn) :
    ¬ (program c).system.EndsIn c.Finished (start c) := by
  intro hends
  obtain ⟨l, s, j, hrun, hcrossing⟩ :=
    crossing_run (f := ⟨0, by omega⟩) (e := ⟨1, by omega⟩) hv hpos hword hfindable
      (by simp [Fin.ext_iff])
  obtain ⟨m, s', hrun', hdead⟩ := hcrossing.dying_run hv rfl rfl
  have hfinished := hends.stuck (l ++ m) s' (hrun.append hrun') hdead.stuck
  exact hdead.not_ended hT rfl rfl hfinished.ended

/-- Without threads nothing happens. -/
theorem ends_none (hT : T = 0) : (program c).system.EndsIn c.Finished (start c) := by
  apply System.EndsIn.of_rank fun _ => 0
  · intro s e s' ⟨choice, _⟩
    cases choice with
    | run t | die t =>
      have hlt := t.isLt
      omega
  · intro l s _ _ t
    have hlt := t.isLt
    omega

/-- **When the search ends**: where the word is in none of the records every schedule comes to an
end, with all threads returned or cancelled by another, exactly in version 3, in version 1 with
two threads at most or where a short last record leaves the word in no buffer, and in version 2
with no thread, or with one that finds the word in such a buffer.
SOURCE: cw08/zad1/main.c:61-139 -/
theorem search_ends_iff (hpos : 0 < c.recordsNo) (hword : ∀ r, ¬ c.Contains r) :
    (program c).system.EndsIn c.Finished (start c) ↔ c.Stops := by
  unfold Setting.Stops
  cases hv : c.version with
  | one =>
    dsimp only
    have htwo : c.version ≠ .two := by
      rw [hv]
      decide
    constructor
    · intro hends
      by_contra hnot
      push Not at hnot
      exact not_ends_crossing hv hpos hnot.1 hword hnot.2 hends
    · intro hcond
      apply endsIn_of_stuck htwo hpos
      intro l s run hstuck
      rcases hcond with hT | hnot
      · exact ended_of_stuck_two hv hT run hstuck
      · exact ended_of_stuck_unfound hv hpos hnot run hstuck
  | two =>
    dsimp only
    constructor
    · intro hends
      by_contra hnot
      push Not at hnot
      obtain ⟨hzero, halone⟩ := hnot
      by_cases hT : T = 1
      · exact not_ends_alone hv hpos ⟨0, by omega⟩ (halone hT) hends
      · exact not_ends_two hv hpos (by omega) hword hends
    · intro hcond
      rcases hcond with hT | ⟨hT, hfound⟩
      · exact ends_none hT
      · exact ends_alone hv hpos hT hfound
  | three =>
    dsimp only
    constructor
    · intro _
      exact trivial
    · intro _
      apply endsIn_of_stuck (by rw [hv]; decide) hpos
      intro l s run hstuck
      exact ended_of_stuck_three hv run hstuck

/-- A search for `a` by one thread in a file that consists of a `b`. -/
def oneByte (version : Version) : Setting 1 where
  version := version
  recordsNo := 1
  word := [97]
  file := [98]
  charsReaded _ := 0

/-- The file is shorter than a record. -/
theorem oneByte_behind (version : Version) (r : ℕ) :
    (oneByte version).file.length ≤ (r + 1) * BUFFSIZE := by
  have hB := BUFFSIZE_pos
  rw [Nat.succ_mul]
  show 1 ≤ r * BUFFSIZE + BUFFSIZE
  omega

/-- No record contains the word. -/
theorem oneByte_word (version : Version) (r : ℕ) : ¬ (oneByte version).Contains r := by
  cases r with
  | zero =>
    cases version <;> decide +kernel
  | succ r =>
    intro hcontains
    have hnil : recordAt (oneByte version).file (r + 1) = [] := by
      unfold recordAt
      rw [List.drop_eq_nil_of_le (oneByte_behind version r), List.take_nil]
    unfold Setting.Contains at hcontains
    rw [hnil] at hcontains
    exact absurd hcontains (by cases version <;> decide)

/-- One thread in version 1. -/
theorem search_ends_iff_one :
    (program (oneByte .one)).system.EndsIn (oneByte .one).Finished (start (oneByte .one)) ↔
      (oneByte .one).Stops :=
  search_ends_iff (by decide) (oneByte_word .one)

/-- What the thread has read stays in its buffer. -/
theorem oneByte_alone (k : ℕ) : (oneByte .two).alone 0 (k + 1) = (oneByte .two).alone 0 1 := by
  induction k with
  | zero => rfl
  | succ k ih =>
    have hstep : (oneByte .two).alone 0 (k + 1 + 1) = (oneByte .two).alone 0 (k + 1) := by
      unfold Setting.alone
      apply overlay_behind
      show (oneByte .two).file.length ≤ ((k + 1) * 1 + 0) * BUFFSIZE
      rw [Nat.mul_one, Nat.add_zero]
      exact oneByte_behind .two k
    exact hstep.trans ih

/-- **Version 2 goes on for ever** at the end of the file. -/
theorem search_not_ending : (∀ r, ¬ (oneByte .two).Contains r) ∧
    ¬ (program (oneByte .two)).system.EndsIn (oneByte .two).Finished (start (oneByte .two)) := by
  refine ⟨oneByte_word .two, ?_⟩
  apply not_ends_alone rfl (by decide) 0
  intro ⟨k, j, hj, hhit⟩
  have hzero : j = 0 := Nat.lt_one_iff.mp hj
  rw [hzero, oneByte_alone] at hhit
  exact absurd hhit (by decide +kernel)

end SystemyOperacyjne.WordSearch
