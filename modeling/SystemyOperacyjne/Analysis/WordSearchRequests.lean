import SystemyOperacyjne.Analysis.WordSearchCalm

/-!
# The mutex and the requests in version 2

Who is cancelled and who holds the mutex: a thread is cancelled only by one that has found the
word and begun to go through the others, and a thread that holds the mutex is in its turn or
has been cancelled in it.
-/

set_option autoImplicit false

namespace SystemyOperacyjne.WordSearch

open Library

variable {T : ℕ} {c : Setting T} {s s' : State T} {e : Option (Report T)}
  {l : List (Option (Report T))}

/-- The points of version 2. -/
def Pc.InTwo : Pc → Prop
  | .testEof | .cancelEof _ | .unlockEof => False
  | _ => True

/-- The thread has found the word and begun to cancel the others. -/
def Pc.Committed : Pc → Prop
  | .cancel _ | .loopEnd false | .returned => True
  | _ => False

/-- The number of threads that the thread has been through in its loop of `pthread_cancel`. -/
def Pc.asked (T : ℕ) : Pc → ℕ
  | .cancel j => j
  | .loopEnd false | .returned => T
  | _ => 0

/-- **Who holds the mutex and who is cancelled** in version 2. -/
structure Orderly (s : State T) : Prop where
  pcs : ∀ t, (s.thread t).pc.InTwo
  holder : ∀ t, (s.thread t).pc.critical = true → s.mutex = some t
  held : ∀ t, s.mutex = some t → (s.thread t).pc.critical = true ∨ (s.thread t).pc = .cancelled
  requester : ∀ t, (s.thread t).cancelRequested = true → ∃ f, f ≠ t ∧ (s.thread f).pc.Committed
  died : ∀ t, (s.thread t).pc = .cancelled → (s.thread t).cancelRequested = true
  asked : ∀ f x, x ≠ f → x.val < (s.thread f).pc.asked T → (s.thread x).cancelRequested = true

/-- Nobody has the mutex, and nobody is cancelled. -/
theorem orderly_start : Orderly (start c) := by
  constructor
  · intro t
    exact trivial
  · intro t h
    cases h
  · intro t h
    cases h
  · intro t h
    cases h
  · intro t h
    cases h
  · intro f x _ h
    exact absurd h (Nat.not_lt_zero _)

/-- **One thread moves on**, and may have called `pthread_cancel` for another. -/
theorem Orderly.move (h : Orderly s) (t : Fin T) (pc : Pc) (hself : (s'.thread t).pc = pc)
    (hne : ∀ x, x ≠ t → (s'.thread x).pc = (s.thread x).pc) (hpc : pc.InTwo)
    (hcommitted : (s.thread t).pc.Committed → pc.Committed)
    (hholder : ∀ x, (s'.thread x).pc.critical = true → s'.mutex = some x)
    (hheld : ∀ x, s'.mutex = some x →
      (s'.thread x).pc.critical = true ∨ (s'.thread x).pc = .cancelled)
    (hkept : ∀ x, (s.thread x).cancelRequested = true → (s'.thread x).cancelRequested = true)
    (hnew : ∀ x, (s'.thread x).cancelRequested = true →
      (s.thread x).cancelRequested = true ∨ x ≠ t ∧ pc.Committed)
    (hdied : pc = .cancelled → (s.thread t).cancelRequested = true)
    (hasked : ∀ x, x ≠ t → x.val < pc.asked T → (s'.thread x).cancelRequested = true) :
    Orderly s' := by
  constructor
  · intro x
    by_cases hx : x = t
    · rw [hx, hself]
      exact hpc
    · rw [hne x hx]
      exact h.pcs x
  · exact hholder
  · exact hheld
  · intro x hreq
    rcases hnew x hreq with hold | ⟨hx, hcom⟩
    · obtain ⟨f, hf, hcom⟩ := h.requester x hold
      refine ⟨f, hf, ?_⟩
      by_cases hft : f = t
      · rw [hft] at hcom ⊢
        rw [hself]
        exact hcommitted hcom
      · rw [hne f hft]
        exact hcom
    · refine ⟨t, fun heq => hx heq.symm, ?_⟩
      rw [hself]
      exact hcom
  · intro x hx
    apply hkept
    by_cases hxt : x = t
    · rw [hxt]
      rw [hxt, hself] at hx
      exact hdied hx
    · rw [hne x hxt] at hx
      exact h.died x hx
  · intro f x hxf hlt
    by_cases hf : f = t
    · rw [hf, hself] at hlt
      exact hasked x (fun heq => hxf (heq.trans hf.symm)) hlt
    · rw [hne f hf] at hlt
      exact hkept x (h.asked f x hxf hlt)

/-- The thread moves on by itself, and the mutex stays where it is. -/
theorem Orderly.goto (h : Orderly s) {t : Fin T} {pc : Pc} (hpc : pc.InTwo)
    (hcommitted : (s.thread t).pc.Committed → pc.Committed)
    (hcritical : pc.critical = (s.thread t).pc.critical ∨ pc = .cancelled)
    (hdied : pc = .cancelled → (s.thread t).cancelRequested = true)
    (hasked : pc.asked T ≤ (s.thread t).pc.asked T)
    (hlive : (s.thread t).pc ≠ .cancelled) : Orderly (s.goto t pc) := by
  apply h.move t pc
  · rw [State.goto_self]
  · intro x hx
    rw [State.goto_of_ne hx]
  · exact hpc
  · exact hcommitted
  · intro x hx
    apply h.holder
    by_cases hxt : x = t
    · rw [hxt] at hx ⊢
      rw [State.goto_self] at hx
      rcases hcritical with heq | hdead
      · rw [← heq]
        exact hx
      · rw [hdead] at hx
        cases hx
    · rw [State.goto_of_ne hxt] at hx
      exact hx
  · intro x hx
    have hold := h.held x hx
    by_cases hxt : x = t
    · rw [hxt] at hold ⊢
      rw [State.goto_self]
      rcases hcritical with heq | hdead
      · exact .inl (heq.trans (hold.resolve_right hlive))
      · exact .inr hdead
    · rw [State.goto_of_ne hxt]
      exact hold
  · intro x hx
    rw [State.goto_cancelRequested]
    exact hx
  · intro x hx
    rw [State.goto_cancelRequested] at hx
    exact .inl hx
  · exact hdied
  · intro x hx hlt
    rw [State.goto_cancelRequested]
    exact h.asked t x hx (Nat.lt_of_lt_of_le hlt hasked)

/-- A thread that has found nothing goes on. -/
theorem Orderly.goto_on (h : Orderly s) {t : Fin T} {pc₀ pc : Pc} (hat : (s.thread t).pc = pc₀)
    (hpc : pc.InTwo) (hold : ¬ pc₀.Committed) (hlive : pc₀ ≠ .cancelled)
    (hcritical : pc.critical = pc₀.critical) (hon : pc ≠ .cancelled) (hasked : pc.asked T = 0) :
    Orderly (s.goto t pc) := by
  subst hat
  apply h.goto hpc
  · exact fun hcom => absurd hcom hold
  · exact .inl hcritical
  · exact fun hdead => absurd hdead hon
  · rw [hasked]
    exact Nat.zero_le _
  · exact hlive

/-- A thread that has begun to cancel the others goes on. -/
theorem Orderly.goto_committed (h : Orderly s) {t : Fin T} {pc₀ pc : Pc}
    (hat : (s.thread t).pc = pc₀) (hpc : pc.InTwo) (hcommitted : pc.Committed)
    (hlive : pc₀ ≠ .cancelled) (hcritical : pc.critical = pc₀.critical) (hon : pc ≠ .cancelled)
    (hasked : pc.asked T ≤ pc₀.asked T) : Orderly (s.goto t pc) := by
  subst hat
  apply h.goto hpc
  · exact fun _ => hcommitted
  · exact .inl hcritical
  · exact fun hdead => absurd hdead hon
  · exact hasked
  · exact hlive

/-- A cancelled thread dies. -/
theorem Orderly.goto_dead (h : Orderly s) {t : Fin T} {pc₀ : Pc} (hat : (s.thread t).pc = pc₀)
    (hold : ¬ pc₀.Committed) (hlive : pc₀ ≠ .cancelled)
    (requested : (s.thread t).cancelRequested = true) : Orderly (s.goto t .cancelled) := by
  subst hat
  apply h.goto
  · exact trivial
  · exact fun hcom => absurd hcom hold
  · exact .inr rfl
  · exact fun _ => requested
  · exact Nat.zero_le _
  · exact hlive

/-- **A thread that goes elsewhere keeps it.** -/
theorem Orderly.goto_step (h : Orderly s) (hv : c.version = .two) {t : Fin T} {pc : Pc}
    (move : Goto c s t pc) : Orderly (s.goto t pc) := by
  have hpcs := h.pcs t
  cases move with
  | dieReading hpc _ _ requested => exact h.goto_dead hpc id (by simp) requested
  | readAll hpc =>
    rw [if_neg (by rw [hv]; decide)]
    exact h.goto_on hpc trivial id (by simp) rfl (by simp) rfl
  | eof hpc | notEof hpc | eofCancelled hpc =>
    rw [hpc] at hpcs
    exact hpcs.elim
  | diePausing hpc requested => exact h.goto_dead hpc id (by simp) requested
  | paused hpc => exact h.goto_on hpc trivial id (by simp) rfl (by simp) rfl
  | found hpc => exact h.goto_on hpc trivial id (by simp) rfl (by simp) rfl
  | missed hpc => exact h.goto_on hpc trivial id (by simp) rfl (by simp) rfl
  | searched hpc => exact h.goto_on hpc trivial id (by simp) rfl (by simp) rfl
  | cancelledAll hpc all => exact h.goto_committed hpc trivial trivial (by simp) rfl (by simp) all
  | again hpc => exact h.goto_on hpc trivial id (by simp) rfl (by simp) rfl
  | finish hpc stop =>
    have hstop := stop.resolve_left (by rw [hv]; decide)
    subst hstop
    exact h.goto_committed hpc trivial trivial (by simp) rfl (by simp) (Nat.le_refl _)
  | die may =>
    unfold mayDie at may
    rw [hv, Bool.and_eq_true] at may
    obtain ⟨requested, hprint⟩ := may
    -- only a thread in `printf` may die so
    have hat : ∃ i, (s.thread t).pc = .print i := by
      cases hpc : (s.thread t).pc with
      | print i => exact ⟨i, rfl⟩
      | _ => rw [hpc] at hprint; cases hprint
    obtain ⟨i, hpc⟩ := hat
    exact h.goto_dead hpc id (by simp) requested

/-- The mutex changes hands. -/
theorem Orderly.pass (h : Orderly s) {t : Fin T} {pc : Pc} {m : Option (Fin T)} (hpc : pc.InTwo)
    (hold : ¬ (s.thread t).pc.Committed) (hon : pc ≠ .cancelled) (hasked : pc.asked T = 0)
    (hself : pc.critical = true ↔ m = some t)
    (hother : ∀ x, x ≠ t → (s.thread x).pc.critical ≠ true ∧ m ≠ some x) :
    Orderly { s.goto t pc with mutex := m } := by
  have hthread : ∀ x, ({ s.goto t pc with mutex := m } : State T).thread x =
      (s.goto t pc).thread x := fun _ => rfl
  apply h.move t pc
  · rw [hthread, State.goto_self]
  · intro x hx
    rw [hthread, State.goto_of_ne hx]
  · exact hpc
  · exact fun hcom => absurd hcom hold
  · intro x hx
    rw [hthread] at hx
    by_cases hxt : x = t
    · rw [hxt, State.goto_self] at hx
      rw [hxt]
      exact hself.mp hx
    · rw [State.goto_of_ne hxt] at hx
      exact absurd hx (hother x hxt).1
  · intro x hx
    by_cases hxt : x = t
    · rw [hxt] at hx
      rw [hthread, hxt, State.goto_self]
      exact .inl (hself.mpr hx)
    · exact absurd hx (hother x hxt).2
  · intro x hx
    rw [hthread, State.goto_cancelRequested]
    exact hx
  · intro x hx
    rw [hthread, State.goto_cancelRequested] at hx
    exact .inl hx
  · exact fun hdead => absurd hdead hon
  · intro x _ hlt
    rw [hasked] at hlt
    exact absurd hlt (Nat.not_lt_zero _)

/-- A thread takes the mutex. -/
theorem Orderly.acquire (h : Orderly s) {t : Fin T} (hpc : (s.thread t).pc = .lock)
    (hfree : s.mutex = none) : Orderly { s.goto t (.read 0) with mutex := some t } := by
  apply h.pass
  · exact trivial
  · simp [hpc, Pc.Committed]
  · simp
  · rfl
  · simp [Pc.critical]
  · intro x hx
    constructor
    · intro hcritical
      have hmutex := h.holder x hcritical
      rw [hfree] at hmutex
      cases hmutex
    · intro heq
      exact hx (Option.some.inj heq).symm

/-- A thread that holds the mutex reads a record. -/
theorem Orderly.read (h : Orderly s) (file : List UInt8) {t : Fin T} {i : ℕ}
    (hpc : (s.thread t).pc = .read i) :
    Orderly ((s.readRecord file t i).goto t (.read (i + 1))) := by
  have hmutex := h.holder t (by rw [hpc]; rfl)
  apply h.move t (.read (i + 1))
  · rw [State.goto_self]
  · intro x hx
    rw [State.goto_of_ne hx, State.readRecord_of_ne hx]
  · exact trivial
  · simp [hpc, Pc.Committed]
  · intro x hx
    show s.mutex = some x
    by_cases hxt : x = t
    · rw [hxt]
      exact hmutex
    · rw [State.goto_of_ne hxt, State.readRecord_of_ne hxt] at hx
      exact h.holder x hx
  · intro x hx
    have hxt : x = t := Option.some.inj (hx.symm.trans hmutex)
    rw [hxt, State.goto_self]
    exact .inl rfl
  · intro x hx
    rw [State.goto_cancelRequested, State.readRecord_cancelRequested]
    exact hx
  · intro x hx
    rw [State.goto_cancelRequested, State.readRecord_cancelRequested] at hx
    exact .inl hx
  · simp
  · intro x _ hlt
    exact absurd hlt (Nat.not_lt_zero _)

/-- A thread gives the mutex back. -/
theorem Orderly.release (h : Orderly s) {t : Fin T} (hpc : (s.thread t).pc = .unlock) :
    Orderly { s.goto t .pause with mutex := none } := by
  have hmutex := h.holder t (by rw [hpc]; rfl)
  apply h.pass
  · exact trivial
  · simp [hpc, Pc.Committed]
  · simp
  · rfl
  · simp [Pc.critical]
  · intro x hx
    constructor
    · intro hcritical
      exact hx (Option.some.inj ((h.holder x hcritical).symm.trans hmutex))
    · simp

/-- **A thread calls `pthread_cancel`** for another. -/
theorem Orderly.cancel (h : Orderly s) {t : Fin T} {j : ℕ} (hpc : (s.thread t).pc = .cancel j)
    (hj : j < T) : Orderly ((s.cancelOther t ⟨j, hj⟩).goto t (.cancel (j + 1))) := by
  apply h.move t (.cancel (j + 1))
  · rw [State.goto_self]
  · intro x hx
    rw [State.goto_of_ne hx, State.cancelOther_pc]
  · exact trivial
  · exact fun _ => trivial
  · intro x hx
    rw [State.goto_mutex, State.cancelOther_mutex]
    by_cases hxt : x = t
    · rw [hxt, State.goto_self] at hx
      cases hx
    · rw [State.goto_of_ne hxt, State.cancelOther_pc] at hx
      exact h.holder x hx
  · intro x hx
    rw [State.goto_mutex, State.cancelOther_mutex] at hx
    have hold := h.held x hx
    by_cases hxt : x = t
    · rw [hxt, hpc] at hold
      rcases hold with hcritical | hdead
      · cases hcritical
      · cases hdead
    · rw [State.goto_of_ne hxt, State.cancelOther_pc]
      exact hold
  · intro x hx
    rw [State.goto_cancelRequested, State.cancelOther_thread]
    split
    · rfl
    · exact hx
  · intro x hx
    rw [State.goto_cancelRequested, State.cancelOther_thread] at hx
    split at hx
    · rename_i hxj
      exact .inr ⟨fun heq => hxj.2 (hxj.1.symm.trans heq), trivial⟩
    · exact .inl hx
  · simp
  · intro x hx hlt
    rw [State.goto_cancelRequested, State.cancelOther_thread]
    by_cases hxj : x = ⟨j, hj⟩
    · rw [if_pos ⟨hxj, fun heq => hx (hxj.trans heq)⟩]
    · rw [if_neg (fun hand => hxj hand.1)]
      apply h.asked t x hx
      rw [hpc]
      have hval : x.val ≠ j := fun heq => hxj (Fin.ext heq)
      exact Nat.lt_of_le_of_ne (Nat.lt_succ_iff.mp hlt) hval

/-- **Every step of version 2 keeps the mutex and the requests in order.** -/
theorem Orderly.step (h : Orderly s) (hv : c.version = .two) (step : Step c s e s') :
    Orderly s' := by
  cases step with
  | acquire hpc hfree => exact h.acquire hpc hfree
  | read hpc => exact h.read c.file hpc
  | goto move => exact h.goto_step hv move
  | release hpc =>
    rw [if_pos hv]
    exact h.release hpc
  | @releaseEof t hpc | @cancelEof t j hpc =>
    have hpcs := h.pcs t
    rw [hpc] at hpcs
    exact hpcs.elim
  | cancel hpc hj => exact h.cancel hpc hj
  | print hpc =>
    rw [if_neg (by rw [hv]; decide)]
    exact h.goto_committed hpc trivial trivial (by simp) rfl (by simp) (Nat.zero_le _)

/-- A thread that has begun to cancel the others does nothing else by itself. -/
theorem Goto.committed (hv : c.version = .two) {t : Fin T} {pc : Pc} (move : Goto c s t pc)
    (ht : (s.thread t).pc.Committed) : pc.Committed := by
  cases move with
  | cancelledAll => exact trivial
  | finish => exact trivial
  | die may =>
    unfold mayDie at may
    rw [hv] at may
    cases hpc : (s.thread t).pc with
    | print i => rw [hpc] at ht; exact ht.elim
    | _ => simp [hpc] at may
  | again hpc | dieReading hpc | readAll hpc | eof hpc | notEof hpc | eofCancelled hpc
  | diePausing hpc | paused hpc | found hpc | missed hpc | searched hpc =>
    rw [hpc] at ht
    exact ht.elim

/-- A thread that has begun to cancel the others does nothing else any more. -/
theorem Step.committed (hv : c.version = .two) (step : Step c s e s') {f : Fin T}
    (hf : (s.thread f).pc.Committed) : (s'.thread f).pc.Committed := by
  -- a thread that is somewhere else is another one
  have hother : ∀ {t : Fin T} {pc : Pc}, (s.thread t).pc = pc → ¬ pc.Committed → f ≠ t := by
    intro t pc hpc hnot heq
    rw [heq, hpc] at hf
    exact hnot hf
  cases step with
  | @acquire t hpc =>
    show ((s.goto t (.read 0)).thread f).pc.Committed
    rw [State.goto_of_ne (hother hpc id)]
    exact hf
  | read hpc =>
    rw [State.goto_of_ne (hother hpc id), State.readRecord_of_ne (hother hpc id)]
    exact hf
  | @goto t pc move =>
    by_cases hft : f = t
    · subst hft
      rw [State.goto_self]
      exact move.committed hv hf
    · rw [State.goto_of_ne hft]
      exact hf
  | @releaseEof t hpc =>
    show ((s.goto t .returned).thread f).pc.Committed
    rw [State.goto_of_ne (hother hpc id)]
    exact hf
  | @release t hpc =>
    show ((s.goto t _).thread f).pc.Committed
    rw [State.goto_of_ne (hother hpc id)]
    exact hf
  | cancelEof hpc =>
    rw [State.goto_of_ne (hother hpc id), State.cancelOther_pc]
    exact hf
  | @cancel t j hpc =>
    by_cases hft : f = t
    · rw [hft, State.goto_self]
      exact trivial
    · rw [State.goto_of_ne hft, State.cancelOther_pc]
      exact hf
  | print hpc =>
    rw [State.goto_of_ne (hother hpc id)]
    exact hf

/-- Version 2 is in order in every run, and once a record has been printed some thread has begun
to cancel the others. -/
theorem orderly (hv : c.version = .two) (run : (program c).system.Run (start c) l s) :
    Orderly s ∧ ((∃ report, some report ∈ l) → ∃ f, (s.thread f).pc.Committed) := by
  apply run.history_induction (I := fun l s =>
    Orderly s ∧ ((∃ report, some report ∈ l) → ∃ f, (s.thread f).pc.Committed))
  · intro l s e s' ⟨h, hreport⟩ hstep
    have hstep := Step.of_system hstep
    refine ⟨h.step hv hstep, ?_⟩
    intro ⟨report, hmem⟩
    rcases List.mem_append.mp hmem with hold | hnew
    · obtain ⟨f, hf⟩ := hreport ⟨report, hold⟩
      exact ⟨f, hstep.committed hv hf⟩
    · have he : e = some report := (List.mem_singleton.mp hnew).symm
      subst he
      cases hstep with
      | @print t i hpc =>
        refine ⟨t, ?_⟩
        rw [State.goto_self, if_neg (by rw [hv]; decide)]
        exact trivial
  · exact ⟨orderly_start, by simp⟩

end SystemyOperacyjne.WordSearch
