import SystemyOperacyjne.Analysis.WordSearchCalm
import SystemyOperacyjne.Analysis.WordSearchEffort
import SystemyOperacyjne.Library.Termination

/-!
# Where the search stops

Where no thread can take a step, one that has not ended waits for a mutex that another holds, and
in version 1 nobody has cancelled it. So the one that holds the mutex has died in its turn. In
version 3 nobody dies. In version 1 a thread that was cancelled has met one that goes through the
others, and there are two ways to see that it reaches the one that waits: with two threads it is
that one itself, and where the word is not found only a thread at the end of the file cancels
others, which holds the mutex while it does.
-/

set_option autoImplicit false

namespace SystemyOperacyjne.WordSearch

open Library

variable {T : ℕ} {c : Setting T} {s s' : State T} {e : Option (Report T)}
  {l : List (Option (Report T))} {k : ℕ}

/-! ## Who waits -/

/-- A thread that has not ended can run on, unless it waits for the mutex. -/
theorem exists_run {t : Fin T} (hlive : (s.thread t).pc.ended = false)
    (hfree : (s.thread t).pc = .lock → s.mutex = none) : ∃ e s', run c s t = some (e, s') := by
  unfold run
  dsimp only
  cases hpc : (s.thread t).pc with
  | lock =>
    dsimp only
    rw [if_pos (hfree hpc)]
    exact ⟨_, _, rfl⟩
  | read i =>
    dsimp only
    split
    · split
      · exact ⟨_, _, rfl⟩
      · exact ⟨_, _, rfl⟩
    · exact ⟨_, _, rfl⟩
  | cancelEof j | cancel j | search i =>
    dsimp only
    split
    · exact ⟨_, _, rfl⟩
    · exact ⟨_, _, rfl⟩
  | returned | cancelled =>
    rw [hpc] at hlive
    cases hlive
  | _ => exact ⟨_, _, rfl⟩

/-- **Where no step is possible** a thread has ended or waits for a mutex that is taken. -/
theorem waits_of_stuck (h : (program c).system.Stuck s) (t : Fin T) :
    (s.thread t).pc.ended = true ∨ (s.thread t).pc = .lock ∧ ∃ d, s.mutex = some d := by
  by_contra hnot
  push Not at hnot
  obtain ⟨hlive, hfree⟩ := hnot
  obtain ⟨e, s', hrun⟩ := exists_run (c := c) (s := s) (t := t) (by simpa using hlive) <| by
    intro hlock
    cases hmutex : s.mutex with
    | none => rfl
    | some d => exact absurd hmutex (hfree hlock d)
  exact h e s' (step_run hrun)

/-- In version 1 a cancelled thread can always die. -/
theorem ended_of_stuck (hv : c.version = .one) (h : (program c).system.Stuck s) {t : Fin T}
    (hreq : (s.thread t).cancelRequested = true) : (s.thread t).pc.ended = true := by
  by_contra hlive
  apply h none (s.goto t .cancelled)
  apply step_die
  exact mayDie_one hv hreq (by simpa using hlive)

/-! ## Who holds the mutex -/

/-- The points at which a thread may have the mutex: those of its turn, and in version 1 it may
have died there. -/
def Setting.MayHold (c : Setting T) (pc : Pc) : Prop :=
  pc.critical = true ∨ c.version = .one ∧ pc = .cancelled

/-- The one that holds the mutex is at such a point. -/
structure Held (c : Setting T) (s : State T) : Prop where
  holder : ∀ d, s.mutex = some d → c.MayHold (s.thread d).pc

/-- A thread moves on and keeps what it holds. -/
theorem Held.move (h : Held c s) (t : Fin T) (hmutex : s'.mutex = s.mutex)
    (hne : ∀ x, x ≠ t → (s'.thread x).pc = (s.thread x).pc)
    (hself : c.MayHold (s.thread t).pc → c.MayHold (s'.thread t).pc) : Held c s' := by
  constructor
  intro d hd
  have hold := h.holder d (hmutex.symm.trans hd)
  by_cases hdt : d = t
  · rw [hdt] at hold ⊢
    exact hself hold
  · rw [hne d hdt]
    exact hold

/-- A thread that goes on by itself gives nothing away. -/
theorem Goto.mayHold (hv : c.version ≠ .two) {t : Fin T} {pc : Pc} (move : Goto c s t pc)
    (h : c.MayHold (s.thread t).pc) : c.MayHold pc := by
  cases move with
  | dieReading _ _ version => exact absurd version hv
  | readAll =>
    split
    · exact .inl rfl
    · exact .inl rfl
  | eof | notEof | eofCancelled => exact .inl rfl
  | die may =>
    right
    refine ⟨?_, rfl⟩
    cases hversion : c.version with
    | one => rfl
    | two => exact absurd hversion hv
    | three => exact absurd hversion (not_three_of_mayDie may)
  | diePausing hpc | paused hpc | found hpc | missed hpc | searched hpc | cancelledAll hpc
  | again hpc | finish hpc =>
    rw [hpc] at h
    rcases h with h | ⟨-, h⟩
    · cases h
    · cases h

/-- A step keeps it. -/
theorem Held.step (h : Held c s) (hv : c.version ≠ .two) (step : Step c s e s') : Held c s' := by
  cases step with
  | @acquire t hpc =>
    constructor
    intro d hd
    cases hd
    show c.MayHold ((s.goto t (.read 0)).thread t).pc
    rw [State.goto_self]
    exact .inl rfl
  | @read t i hpc =>
    apply h.move t
    · rfl
    · intro x hx
      rw [State.goto_of_ne hx, State.readRecord_of_ne hx]
    · intro _
      rw [State.goto_self]
      exact .inl rfl
  | @goto t pc move =>
    apply h.move t
    · rfl
    · intro x hx
      rw [State.goto_of_ne hx]
    · intro hold
      rw [State.goto_self]
      exact move.mayHold hv hold
  | releaseEof | release =>
    constructor
    intro d hd
    cases hd
  | @cancelEof t j hpc hj =>
    apply h.move t
    · rw [State.goto_mutex, State.cancelOther_mutex]
    · intro x hx
      rw [State.goto_of_ne hx, State.cancelOther_pc]
    · intro _
      rw [State.goto_self]
      exact .inl rfl
  | @cancel t j hpc hj =>
    apply h.move t
    · rw [State.goto_mutex, State.cancelOther_mutex]
    · intro x hx
      rw [State.goto_of_ne hx, State.cancelOther_pc]
    · intro hold
      rw [hpc] at hold
      rcases hold with hold | ⟨-, hold⟩
      · cases hold
      · cases hold
  | @print t i hpc =>
    apply h.move t
    · rfl
    · intro x hx
      rw [State.goto_of_ne hx]
    · intro hold
      rw [hpc] at hold
      rcases hold with hold | ⟨-, hold⟩
      · cases hold
      · cases hold

/-- It holds in every run of versions 1 and 3. -/
theorem held (hv : c.version ≠ .two) (run : (program c).system.Run (start c) l s) : Held c s := by
  apply run.history_induction (I := fun _ s => Held c s)
  · intro _ s e s' h hstep
    exact h.step hv (.of_system hstep)
  · constructor
    intro d hd
    cases hd

/-- **Where version 1 or 3 stops** before all threads have ended, a thread waits that nobody has
cancelled, and the one that holds the mutex has died. -/
theorem dead_of_stuck (hv : c.version ≠ .two) (run : (program c).system.Run (start c) l s)
    (h : (program c).system.Stuck s) {x : Fin T} (hx : (s.thread x).pc.ended ≠ true) :
    c.version = .one ∧ (s.thread x).pc = .lock ∧ ∃ d, d ≠ x ∧ (s.thread d).pc = .cancelled := by
  rcases waits_of_stuck h x with hended | ⟨hlock, d, hd⟩
  · exact absurd hended hx
  · have hdead : c.version = .one ∧ (s.thread d).pc = .cancelled := by
      rcases (held hv run).holder d hd with hcritical | hdead
      · -- a thread in its turn could go on
        rcases waits_of_stuck h d with hended | ⟨hlock', -⟩
        · cases hpc : (s.thread d).pc with
          | returned | cancelled => rw [hpc] at hcritical; cases hcritical
          | _ => rw [hpc] at hended; cases hended
        · rw [hlock'] at hcritical
          cases hcritical
      · exact hdead
    refine ⟨hdead.1, hlock, d, ?_, hdead.2⟩
    intro heq
    rw [heq, hlock] at hdead
    cases hdead.2

/-- **Version 3 stops** only where all threads have ended. -/
theorem ended_of_stuck_three (hv : c.version = .three)
    (run : (program c).system.Run (start c) l s) (h : (program c).system.Stuck s) : s.ended := by
  intro x
  by_contra hx
  obtain ⟨hone, -⟩ := dead_of_stuck (by rw [hv]; decide) run h hx
  rw [hv] at hone
  cases hone

/-! ## Two threads -/

/-- The thread goes through the others or has done so, or has died. -/
def Pc.Asking : Pc → Prop
  | .cancelEof _ | .unlockEof | .cancel _ | .loopEnd false | .returned | .cancelled => True
  | _ => False

/-- **Who is cancelled** has been so by another thread. -/
structure Requests (s : State T) : Prop where
  requester : ∀ t, (s.thread t).cancelRequested = true → ∃ r, r ≠ t ∧ (s.thread r).pc.Asking
  died : ∀ t, (s.thread t).pc = .cancelled → (s.thread t).cancelRequested = true

/-- One thread moves on, and may have cancelled others. -/
theorem Requests.move (h : Requests s) (t : Fin T)
    (hne : ∀ x, x ≠ t → (s'.thread x).pc = (s.thread x).pc)
    (hkept : ∀ x, (s.thread x).cancelRequested = true → (s'.thread x).cancelRequested = true)
    (hnew : ∀ x, (s'.thread x).cancelRequested = true →
      (s.thread x).cancelRequested = true ∨ x ≠ t ∧ (s'.thread t).pc.Asking)
    (hasking : (s.thread t).pc.Asking → (s'.thread t).pc.Asking)
    (hdied : (s'.thread t).pc = .cancelled → (s.thread t).cancelRequested = true) :
    Requests s' := by
  constructor
  · intro x hreq
    rcases hnew x hreq with hold | ⟨hx, hask⟩
    · obtain ⟨r, hr, hask⟩ := h.requester x hold
      refine ⟨r, hr, ?_⟩
      by_cases hrt : r = t
      · rw [hrt] at hask ⊢
        exact hasking hask
      · rw [hne r hrt]
        exact hask
    · exact ⟨t, fun heq => hx heq.symm, hask⟩
  · intro x hx
    apply hkept
    by_cases hxt : x = t
    · rw [hxt] at hx ⊢
      exact hdied hx
    · rw [hne x hxt] at hx
      exact h.died x hx

/-- A thread goes on by itself. -/
theorem Requests.goto (h : Requests s) (t : Fin T) (pc : Pc)
    (hthread : s'.thread = (s.goto t pc).thread) (hasking : (s.thread t).pc.Asking → pc.Asking)
    (hdied : pc = .cancelled → (s.thread t).cancelRequested = true) : Requests s' := by
  have hflag : ∀ x, (s'.thread x).cancelRequested = (s.thread x).cancelRequested := by
    intro x
    rw [hthread, State.goto_cancelRequested]
  have hself : (s'.thread t).pc = pc := by rw [hthread, State.goto_self]
  apply h.move t
  · intro x hx
    rw [hthread, State.goto_of_ne hx]
  · intro x hx
    rw [hflag]
    exact hx
  · intro x hx
    rw [hflag] at hx
    exact .inl hx
  · rw [hself]
    exact hasking
  · rw [hself]
    exact hdied

/-- A thread that goes through the others does so until it ends, and who dies was cancelled. -/
theorem Goto.asking {t : Fin T} {pc : Pc} (move : Goto c s t pc) :
    ((s.thread t).pc.Asking → pc.Asking) ∧
      (pc = .cancelled → (s.thread t).cancelRequested = true) := by
  cases move with
  | dieReading _ _ _ requested | diePausing _ requested =>
    exact ⟨fun _ => trivial, fun _ => requested⟩
  | die may => exact ⟨fun _ => trivial, fun _ => requested_of_mayDie may⟩
  | readAll hpc =>
    rw [hpc]
    refine ⟨False.elim, ?_⟩
    split
    · intro hdead
      cases hdead
    · intro hdead
      cases hdead
  | eofCancelled | cancelledAll | finish =>
    refine ⟨fun _ => trivial, ?_⟩
    intro hdead
    cases hdead
  | eof hpc | notEof hpc | paused hpc | found hpc | missed hpc | searched hpc | again hpc =>
    rw [hpc]
    refine ⟨False.elim, ?_⟩
    intro hdead
    cases hdead

/-- One call of `pthread_cancel` in a loop over the others. -/
theorem Requests.cancelOther (h : Requests s) {t j : Fin T} {pc : Pc} (hpc : pc.Asking)
    (hlive : pc ≠ .cancelled) : Requests ((s.cancelOther t j).goto t pc) := by
  have hflag : ∀ x, (((s.cancelOther t j).goto t pc).thread x).cancelRequested =
      if x = j ∧ j ≠ t then true else (s.thread x).cancelRequested := by
    intro x
    rw [State.goto_cancelRequested, State.cancelOther_thread]
    split
    · rfl
    · rfl
  have hself : (((s.cancelOther t j).goto t pc).thread t).pc = pc := by rw [State.goto_self]
  apply h.move t
  · intro x hx
    rw [State.goto_of_ne hx, State.cancelOther_pc]
  · intro x hx
    rw [hflag, hx, ite_self]
  · intro x hx
    rw [hflag] at hx
    by_cases hxj : x = j ∧ j ≠ t
    · right
      rw [hself, hxj.1]
      exact ⟨hxj.2, hpc⟩
    · rw [if_neg hxj] at hx
      exact .inl hx
  · intro _
    rw [hself]
    exact hpc
  · rw [hself]
    intro hdead
    exact absurd hdead hlive

/-- A step keeps it. -/
theorem Requests.step (h : Requests s) (hv : c.version ≠ .three) (step : Step c s e s') :
    Requests s' := by
  cases step with
  | @acquire t hpc =>
    apply h.goto t (.read 0)
    · rfl
    · rw [hpc]
      exact False.elim
    · intro hdead
      cases hdead
  | @read t i hpc =>
    have hflag : ∀ x, (((s.readRecord c.file t i).goto t (.read (i + 1))).thread
        x).cancelRequested = (s.thread x).cancelRequested := by
      intro x
      rw [State.goto_cancelRequested, State.readRecord_cancelRequested]
    apply h.move t
    · intro x hx
      rw [State.goto_of_ne hx, State.readRecord_of_ne hx]
    · intro x hx
      rw [hflag]
      exact hx
    · intro x hx
      rw [hflag] at hx
      exact .inl hx
    · rw [hpc]
      exact False.elim
    · rw [State.goto_self]
      intro hdead
      cases hdead
  | @goto t pc move =>
    obtain ⟨hasking, hdied⟩ := move.asking
    exact h.goto t pc rfl hasking hdied
  | @releaseEof t hpc =>
    apply h.goto t .returned
    · rfl
    · exact fun _ => trivial
    · intro hdead
      cases hdead
  | @release t hpc =>
    apply h.goto t (if c.version = .two then .pause else .search 0)
    · rfl
    · rw [hpc]
      exact False.elim
    · split
      · intro hdead
        cases hdead
      · intro hdead
        cases hdead
  | @cancelEof t j hpc hj => exact h.cancelOther trivial (by simp)
  | @cancel t j hpc hj => exact h.cancelOther trivial (by simp)
  | @print t i hpc =>
    rw [if_neg hv]
    apply h.goto t (.cancel 0)
    · rfl
    · exact fun _ => trivial
    · intro hdead
      cases hdead

/-- It holds in every run of versions 1 and 2. -/
theorem requests (hv : c.version ≠ .three) (run : (program c).system.Run (start c) l s) :
    Requests s := by
  apply run.history_induction (I := fun _ s => Requests s)
  · intro _ s e s' h hstep
    exact h.step hv (.of_system hstep)
  · constructor
    · intro t h
      cases h
    · intro t h
      cases h

/-- **With two threads at most version 1 stops** only where all have ended: the thread that has
cancelled the dead one would be the one that waits. -/
theorem ended_of_stuck_two (hv : c.version = .one) (hT : T ≤ 2)
    (run : (program c).system.Run (start c) l s) (h : (program c).system.Stuck s) : s.ended := by
  intro x
  by_contra hx
  obtain ⟨-, hlock, d, hdx, hdead⟩ := dead_of_stuck (by rw [hv]; decide) run h hx
  have hreqs := requests (by rw [hv]; decide) run
  obtain ⟨r, hrd, hask⟩ := hreqs.requester d (hreqs.died d hdead)
  have hrx : r = x := by
    have hr := r.isLt
    have hd := d.isLt
    have hx := x.isLt
    have hne := Fin.val_ne_of_ne hrd
    have hne' := Fin.val_ne_of_ne hdx
    exact Fin.ext (by omega)
  rw [hrx, hlock] at hask
  exact hask

end SystemyOperacyjne.WordSearch
