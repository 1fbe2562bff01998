import SystemyOperacyjne.Analysis.WordSearchRounds
import SystemyOperacyjne.Analysis.WordSearchUnfound

/-!
# Two threads that cancel each other

In version 1 a thread that has found the word and a thread that has met the end of the file may
both be in their loops of `pthread_cancel`. Where the word is in no record but a short last record
leaves it visible in a buffer, a schedule gets there. Each of the two cancels the other before it
comes to a third thread: both die, the second with the mutex, and the third thread waits for ever.
-/

set_option autoImplicit false

namespace SystemyOperacyjne.WordSearch

open Library

variable {T : ℕ} {c : Setting T} {s s' : State T} {k : ℕ}

/-- Where the finder `f` and the thread `e` at the end of the file are and whether they are
cancelled; all others wait. -/
structure Crossing (s : State T) (f e : Fin T) (pf pe : Pc) (rf re : Bool) : Prop where
  finder : (s.thread f).pc = pf
  at_eof : (s.thread e).pc = pe
  finder_asked : (s.thread f).cancelRequested = rf
  eof_asked : (s.thread e).cancelRequested = re
  waiting : ∀ x, x ≠ f → x ≠ e → (s.thread x).pc = .lock ∧ (s.thread x).cancelRequested = false
  mutex : s.mutex = some e

variable {f e : Fin T} {pf pe : Pc} {rf re : Bool}

/-- The finder goes on. -/
theorem Crossing.goto_finder (h : Crossing s f e pf pe rf re) (hne : e ≠ f) (pc : Pc) :
    Crossing (s.goto f pc) f e pc pe rf re := by
  constructor
  · rw [State.goto_self]
  · rw [State.goto_of_ne hne]
    exact h.at_eof
  · rw [State.goto_cancelRequested]
    exact h.finder_asked
  · rw [State.goto_cancelRequested]
    exact h.eof_asked
  · intro x hf he
    rw [State.goto_of_ne hf]
    exact h.waiting x hf he
  · exact h.mutex

/-- The thread at the end of the file goes on. -/
theorem Crossing.goto_eof (h : Crossing s f e pf pe rf re) (hne : e ≠ f) (pc : Pc) :
    Crossing (s.goto e pc) f e pf pc rf re := by
  constructor
  · rw [State.goto_of_ne (fun heq => hne heq.symm)]
    exact h.finder
  · rw [State.goto_self]
  · rw [State.goto_cancelRequested]
    exact h.finder_asked
  · rw [State.goto_cancelRequested]
    exact h.eof_asked
  · intro x hf he
    rw [State.goto_of_ne he]
    exact h.waiting x hf he
  · exact h.mutex

/-- The finder cancels the other. -/
theorem Crossing.ask_eof (h : Crossing s f e pf pe rf re) (hne : e ≠ f) :
    Crossing (s.cancelOther f e) f e pf pe rf true := by
  constructor
  · rw [State.cancelOther_pc]
    exact h.finder
  · rw [State.cancelOther_pc]
    exact h.at_eof
  · rw [State.cancelOther_thread, if_neg (fun heq => hne heq.1.symm)]
    exact h.finder_asked
  · rw [State.cancelOther_thread, if_pos ⟨rfl, hne⟩]
  · intro x hf he
    rw [State.cancelOther_thread, if_neg (fun heq => he heq.1)]
    exact h.waiting x hf he
  · rw [State.cancelOther_mutex]
    exact h.mutex

/-- The thread at the end of the file cancels the finder. -/
theorem Crossing.ask_finder (h : Crossing s f e pf pe rf re) (hne : e ≠ f) :
    Crossing (s.cancelOther e f) f e pf pe true re := by
  constructor
  · rw [State.cancelOther_pc]
    exact h.finder
  · rw [State.cancelOther_pc]
    exact h.at_eof
  · rw [State.cancelOther_thread, if_pos ⟨rfl, fun heq => hne heq.symm⟩]
  · rw [State.cancelOther_thread, if_neg (fun heq => hne heq.1)]
    exact h.eof_asked
  · intro x hf he
    rw [State.cancelOther_thread, if_neg (fun heq => hf heq.1)]
    exact h.waiting x hf he
  · rw [State.cancelOther_mutex]
    exact h.mutex

/-- A thread skips itself. -/
theorem State.cancelOther_same (s : State T) (t : Fin T) : s.cancelOther t t = s := by
  unfold State.cancelOther
  rw [if_neg (fun h => h rfl)]

/-- **The two cancel each other and die.** The finder is the first thread and the other the
second, so neither has come to a third one. -/
theorem Crossing.dying_run {j : ℕ} (h : Crossing s f e (.print j) (.cancelEof 0) false false)
    (hv : c.version = .one) (hf : f.val = 0) (he : e.val = 1) :
    ∃ l s', (program c).system.Run s l s' ∧ Crossing s' f e .cancelled .cancelled true true := by
  have hne : e ≠ f := by
    intro heq
    rw [heq] at he
    omega
  have h0 : 0 < T := Nat.lt_of_le_of_lt (Nat.zero_le _) f.isLt
  have h1 : 1 < T := he ▸ e.isLt
  have hfirst : (⟨0, h0⟩ : Fin T) = f := Fin.ext hf.symm
  have hsecond : (⟨1, h1⟩ : Fin T) = e := Fin.ext he.symm
  -- the finder
  have hprint : run c s f =
      some (some ⟨f, (s.thread f).readingBuffer j⟩, s.goto f (.cancel 0)) :=
    run_print h.finder (by rw [hv]; decide)
  have hs₁ := h.goto_finder hne (.cancel 0)
  have hskip := run_cancel (c := c) hs₁.finder h0
  rw [hfirst, State.cancelOther_same] at hskip
  have hs₂ := hs₁.goto_finder hne (.cancel 1)
  have hask := run_cancel (c := c) hs₂.finder h1
  rw [hsecond] at hask
  have hs₃ := (hs₂.ask_eof hne).goto_finder hne (.cancel 2)
  generalize (((s.goto f (.cancel 0)).goto f (.cancel 1)).cancelOther f e).goto f (.cancel 2) = s₃
    at hask hs₃
  -- the thread at the end of the file
  have heof : run c s₃ e = some (none, (s₃.cancelOther e f).goto e (.cancelEof 1)) := by
    rw [run_cancelEof hs₃.at_eof h0, hfirst]
  have hs₄ := (hs₃.ask_finder hne).goto_eof hne (.cancelEof 1)
  generalize (s₃.cancelOther e f).goto e (.cancelEof 1) = s₄ at heof hs₄
  have hdie₁ := step_die (mayDie_one hv hs₄.eof_asked (by rw [hs₄.at_eof]; rfl))
  have hs₅ := hs₄.goto_eof hne .cancelled
  have hdie₂ := step_die (mayDie_one hv hs₅.finder_asked (by rw [hs₅.finder]; rfl))
  exact ⟨_, _, .cons (step_run hprint) (.cons (step_run hskip) (.cons (step_run hask)
    (.cons (step_run heof) (.cons hdie₁ (.single hdie₂))))), hs₅.goto_finder hne .cancelled⟩

/-- **The others wait for ever.** -/
theorem Crossing.stuck (h : Crossing s f e .cancelled .cancelled rf re) :
    (program c).system.Stuck s := by
  have hpc : ∀ x, (s.thread x).pc = .cancelled ∨
      (s.thread x).pc = .lock ∧ (s.thread x).cancelRequested = false := by
    intro x
    by_cases hf : x = f
    · rw [hf]
      exact .inl h.finder
    · by_cases he : x = e
      · rw [he]
        exact .inl h.at_eof
      · exact .inr (h.waiting x hf he)
  intro a s' ⟨choice, hnext⟩
  cases choice with
  | run x =>
    have hrun : run c s x = some (a, s') := hnext
    unfold run at hrun
    dsimp only at hrun
    rcases hpc x with hdead | ⟨hlock, -⟩
    · rw [hdead] at hrun
      cases hrun
    · rw [hlock] at hrun
      dsimp only at hrun
      rw [h.mutex, if_neg (by simp)] at hrun
      cases hrun
  | die x =>
    have hmay := mayDie_of_next hnext
    rcases hpc x with hdead | ⟨-, hlive⟩
    · have hlive := not_ended_of_mayDie hmay
      rw [hdead] at hlive
      cases hlive
    · have hreq := requested_of_mayDie hmay
      rw [hlive] at hreq
      cases hreq

/-- Threads that wait have not ended. -/
theorem Crossing.not_ended (h : Crossing s f e pf pe rf re) (hT : 3 ≤ T) (hf : f.val = 0)
    (he : e.val = 1) : ¬ s.ended := by
  intro hended
  have hx := hended ⟨2, by omega⟩
  rw [(h.waiting ⟨2, by omega⟩ (by simp [Fin.ext_iff, hf]) (by simp [Fin.ext_iff, he])).1] at hx
  cases hx

/-- **A schedule leads to the two.** The finder has read the short last record, so the next batch
is one of nothing. -/
theorem crossing_run (hv : c.version = .one) (hpos : 0 < c.recordsNo)
    (hword : ∀ r, ¬ c.Contains r) (hfindable : c.FindableInTurn) (hne : e ≠ f) :
    ∃ l s j, (program c).system.Run (start c) l s ∧
      Crossing s f e (.print j) (.cancelEof 0) false false := by
  obtain ⟨k, i, b, hi, hb, hsome, hhit⟩ := hfindable
  have hlt : (k * c.recordsNo + c.recordsNo - 1) * BUFFSIZE < c.file.length := by
    by_contra hge
    apply hsome
    unfold recordAt
    rw [List.drop_eq_nil_of_le (by omega), List.take_nil]
  have hwhole : k * c.recordsNo * BUFFSIZE ≤ c.file.length := by
    have hle : k * c.recordsNo * BUFFSIZE ≤ (k * c.recordsNo + c.recordsNo - 1) * BUFFSIZE :=
      Nat.mul_le_mul_right _ (by omega)
    omega
  have hshort : c.file.length ≤ (k + 1) * c.recordsNo * BUFFSIZE := by
    by_contra hlong
    have hle : (k * c.recordsNo + i + 1) * BUFFSIZE ≤ (k + 1) * c.recordsNo * BUFFSIZE := by
      apply Nat.mul_le_mul_right
      rw [Nat.succ_mul]
      omega
    rw [strstr_overlay_whole hword hb.length (by omega)] at hhit
    cases hhit
  obtain ⟨l, s, hrun, hrest, hbuffer⟩ := hb.resting_run hv hpos hword hne hi hwhole
  obtain ⟨m, s₁, hrun₁, -, hdone⟩ := (hrest.at_lock f).round (.inr ⟨hv, hsome⟩) hpos
  rcases hdone.outcome with ⟨-, hmiss⟩ | ⟨j, hprint⟩
  · have hfalse := hmiss i hi
    rw [hdone.batch.buffer i hi, hbuffer, hhit] at hfalse
    cases hfalse
  have hother : ∀ x, x ≠ f → s₁.thread x = s.thread x := hdone.batch.other
  have hlive : ∀ x, x ≠ f → (s₁.thread x).cancelRequested = false := by
    intro x hx
    rw [hother x hx]
    exact (hrest.at_lock x).live
  have hlock : ∀ x, x ≠ f → (s₁.thread x).pc = .lock := by
    intro x hx
    rw [hother x hx]
    exact (hrest.at_lock x).pc
  obtain ⟨s₂, ⟨n, hrun₂, -⟩, htaken, hmutex, hread, hchars⟩ :=
    taking_run (hlock e hne) hdone.free (hlive e hne) hdone.batch.offset
  have hzero : (s₂.thread e).charsReaded = 0 := by
    have hbehind : c.file.length ≤ ((k + 1) * c.recordsNo + c.recordsNo - 1) * BUFFSIZE := by
      apply Nat.le_trans hshort
      apply Nat.mul_le_mul_right
      omega
    rw [hchars, if_neg (by omega)]
    unfold recordAt
    rw [List.drop_eq_nil_of_le hbehind, List.take_nil]
    rfl
  have hfirst : run c s₂ e = some (none, s₂.goto e .testEof) := by
    rw [run_readAll hread, if_pos hv]
  have hsecond : run c (s₂.goto e .testEof) e = some (none, s₂.goto e (.cancelEof 0)) := by
    rw [run_eof (by rw [State.goto_self]) (by rw [State.goto_self]; exact hzero), State.goto_goto]
  refine ⟨_, s₂.goto e (.cancelEof 0), j, hrun.append (hrun₁.append (hrun₂.append
    (.cons (step_run hfirst) (.single (step_run hsecond))))), ?_⟩
  have hfe : f ≠ e := fun heq => hne heq.symm
  constructor
  · rw [State.goto_of_ne hfe, htaken.other f hfe]
    exact hprint.pc
  · rw [State.goto_self]
  · rw [State.goto_cancelRequested, htaken.other f hfe, hdone.batch.cancelRequested]
    exact (hrest.at_lock f).live
  · rw [State.goto_cancelRequested, htaken.cancelRequested]
    exact hlive e hne
  · intro x hf he
    rw [State.goto_of_ne he, htaken.other x he]
    exact ⟨hlock x hf, hlive x hf⟩
  · exact hmutex

end SystemyOperacyjne.WordSearch
