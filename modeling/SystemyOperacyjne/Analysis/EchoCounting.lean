import Mathlib
import SystemyOperacyjne.Analysis.EchoSteps

/-!
# How many signals come back

Every `SIG1` the parent has sent is counted by it, under way or lost (`run_balance`). It is under
way while it is pending for one of the processes or in a run of `handler` that has not answered
it, and with real-time signals it is only lost when the child ends before it answers.
-/

set_option autoImplicit false

namespace SystemyOperacyjne.SignalEcho

open Library

variable {type : ℤ} {L : ℕ} {s s' : State} {e : Event} {pid : Pid} {signum : Signum}

/-- **The balance of a run**: of the `SIG1` sent, the parent has counted all that are neither
under way nor lost. -/
theorem run_balance (htype : (sig1 type).isSome) {l : List Event}
    (hrun : (echo type L).system.Run start l s) :
    Exchange L s ∧
      s.main.sent L = s.parent.pRcounter + s.underWay + (l.map Event.lost).sum := by
  apply hrun.history_induction (I := fun l s => Exchange L s ∧
    s.main.sent L = s.parent.pRcounter + s.underWay + (l.map Event.lost).sum)
  · intro l s e s' ⟨hs, hbalance⟩ ⟨c, hstep⟩
    have hkeeps := next_keeps htype hs hstep
    constructor
    · exact hkeeps.exchange
    · have hstep := hkeeps.balance
      simp only [List.map_append, List.sum_append, List.map_cons, List.map_nil, List.sum_cons,
        List.sum_nil]
      omega
  · exact ⟨.start, rfl⟩

/-! ## What the steps show -/

/-- What a step of `main` shows. -/
theorem mainStep_event (hstep : mainStep type L s = some (e, s')) :
    e = .silent ∨
    (s.main.sending ∧ ∃ signum, sig1 type = some signum ∧ e = .sent (s.child.refuses signum)) ∨
    (s.main = .print ∧ e = .printed s.parent.pScounter s.parent.pRcounter) := by
  obtain ⟨main, parent, child⟩ := s
  cases main with
  | kill i =>
    simp only [mainStep] at hstep
    split at hstep
    · rename_i signum hsig1
      cases hstep
      exact .inr (.inl ⟨rfl, signum, hsig1, rfl⟩)
    · cases hstep
      exact .inl rfl
  | killLast =>
    simp only [mainStep] at hstep
    split at hstep
    · cases hstep
      exact .inl rfl
    · cases hstep
      exact .inl rfl
  | waitChild interrupted =>
    simp only [mainStep] at hstep
    split at hstep
    · cases hstep
      exact .inl rfl
    · cases hstep
  | print =>
    cases hstep
    exact .inr (.inr ⟨rfl, rfl⟩)
  | printed => cases hstep
  | test i | count i | sleep i | callWait =>
    cases hstep
    exact .inl rfl

/-- What a step of the handler shows. -/
theorem handlerStep_event (hstep : handlerStep type pid s = some (e, s')) :
    e = .silent ∨ e = .exit (s.process pid).unanswered ∨
      e = .echoed (s.parent.refuses (if type = 3 then .sigrtmin else .sigusr1)) := by
  simp only [handlerStep] at hstep
  split at hstep
  · cases hstep
  · split at hstep
    · split at hstep
      · split at hstep
        · cases hstep
          exact .inl rfl
        · cases hstep
          exact .inl rfl
      · cases hstep
        exact .inr (.inl rfl)
    · cases hstep
      cases pid with
      | parent => exact .inr (.inr rfl)
      | child => exact .inr (.inr rfl)
    · cases hstep
      exact .inl rfl

/-- A call of the handler shows nothing. -/
theorem deliver_event (hstep : deliver pid signum s = some (e, s')) : e = .silent := by
  obtain ⟨sender, senders, -, heq, -⟩ := deliver_cases hstep
  exact heq

/-- The line is printed at the end of `main`, with the counters. -/
theorem printed_of_next {c : Choice} {sent received : ℕ}
    (hstep : next type L s c = some (.printed sent received, s')) :
    s.main = .print ∧ sent = s.parent.pScounter ∧ received = s.parent.pRcounter := by
  cases c with
  | main =>
    simp only [next] at hstep
    split at hstep
    · rcases mainStep_event hstep with heq | ⟨-, signum, -, heq⟩ | ⟨hmain, heq⟩
      · cases heq
      · cases heq
      · cases heq
        exact ⟨hmain, rfl, rfl⟩
    · cases hstep
  | handler pid =>
    rcases handlerStep_event hstep with heq | heq | heq
    · cases heq
    · cases heq
    · cases heq
  | deliver pid signum => cases deliver_event hstep

/-- A real-time signal is only lost when the process it is for ends. -/
theorem lost_of_next (h : Exchange L s) {c : Choice} (hstep : next 3 L s c = some (e, s')) :
    e.lost = 0 ↔ ∀ u, e = .exit u → u = 0 := by
  cases c with
  | main =>
    simp only [next] at hstep
    split at hstep
    · rcases mainStep_event hstep with rfl | ⟨hsending, signum, hsig1, rfl⟩ | ⟨-, rfl⟩
      · simp [Event.lost]
      · have hrefuses : s.child.refuses signum = false := by
          cases hsig1
          exact Bool.or_eq_false_iff.mpr ⟨h.childAlive hsending, rfl⟩
        simp [Event.lost, hrefuses]
      · simp [Event.lost]
    · cases hstep
  | handler pid =>
    rcases handlerStep_event hstep with rfl | rfl | rfl
    · simp [Event.lost]
    · simp [Event.lost]
    · have hrefuses : s.parent.refuses .sigrtmin = false :=
        Bool.or_eq_false_iff.mpr ⟨h.parentAlive, rfl⟩
      simp [Event.lost, hrefuses]
  | deliver pid signum =>
    cases deliver_event hstep
    simp [Event.lost]

/-- Nothing is lost in a run exactly when the child leaves nothing unanswered. -/
theorem run_lost {l : List Event} (hrun : (echo 3 L).system.Run start l s) :
    (l.map Event.lost).sum = 0 ↔ ∀ u, .exit u ∈ l → u = 0 := by
  have hlabels : ∀ e ∈ l, e.lost = 0 ↔ ∀ u, e = .exit u → u = 0 := by
    apply hrun.labels (I := Exchange L) (P := fun e => e.lost = 0 ↔ ∀ u, e = .exit u → u = 0)
    · intro s e s' hs ⟨c, hstep⟩
      exact ⟨lost_of_next hs hstep, (next_keeps rfl hs hstep).exchange⟩
    · exact .start
  rw [List.sum_eq_zero_iff_forall_eq_nat]
  constructor
  · intro hzero u hu
    exact (hlabels _ hu).mp (hzero _ (List.mem_map_of_mem hu)) u rfl
  · intro hexit n hn
    obtain ⟨e, he, rfl⟩ := List.mem_map.mp hn
    apply (hlabels e he).mpr
    rintro u rfl
    exact hexit u he

/-- **The signals that came back**. When the parent prints its counters, it has sent `L` signals,
and `L` have come back exactly when none is still under way and no process has ended with one
that it had not answered.
SOURCE: cw04/zad3/main.c:27-49, cw04/zad3/main.c:80-120 -/
theorem received_iff {l : List Event} {sent received : ℕ}
    (hrun : (echo 3 L).system.Run start l s)
    (hprint : (echo 3 L).system.step s (.printed sent received) s') :
    sent = L ∧ (received = L ↔ s.underWay = 0 ∧ ∀ u, .exit u ∈ l → u = 0) := by
  obtain ⟨c, hstep⟩ := hprint
  obtain ⟨hmain, rfl, rfl⟩ := printed_of_next hstep
  obtain ⟨hexchange, hbalance⟩ := run_balance rfl hrun
  have hcounter := hexchange.pScounter
  rw [hmain] at hbalance hcounter
  simp only [MainPc.sent, MainPc.counted] at hbalance hcounter
  rw [← run_lost hrun]
  constructor
  · exact hcounter
  · omega

/-- The one signal is sent back and counted before the second one is sent. -/
def promptEcho : List Choice :=
  [.main, .main, .deliver .child .sigrtmin, .handler .child, .handler .child, .handler .child,
    .deliver .parent .sigrtmin, .handler .parent, .handler .parent, .main, .main, .main, .main,
    .main, .deliver .child .sigrtminPlus1, .handler .child, .main]

/-- The second signal interrupts the handler of the first, before its `kill`. -/
def interruptedEcho : List Choice :=
  [.main, .main, .main, .main, .main, .main, .deliver .child .sigrtmin, .handler .child,
    .deliver .child .sigrtminPlus1, .handler .child, .main, .main]

/-- The prompt schedule can be followed. -/
theorem promptEcho_isSome : ((echo 3 1).exec start promptEcho).isSome := by
  decide +kernel

/-- So can the interrupted one. -/
theorem interruptedEcho_isSome : ((echo 3 1).exec start interruptedEcho).isSome := by
  decide +kernel

/-- A child that answers before its end. -/
theorem received_iff_prompt :
    let last := ((echo 3 1).exec start promptEcho).get promptEcho_isSome
    last.2.underWay = 0 ∧ ∀ u, .exit u ∈ last.1 → u = 0 := by
  have hprinted : 1 = 1 ∧ (1 = 1 ↔ _) :=
    received_iff (Machine.exec_run_get promptEcho_isSome) ⟨.main, rfl⟩
  exact hprinted.2.mp rfl

/-- The parent prints that it has sent one signal and received none. -/
theorem interrupted_not_received :
    ¬ ∀ (L : ℕ) (l : List Event) (s s' : State) (sent received : ℕ),
      (echo 3 L).system.Run start l s → (echo 3 L).system.step s (.printed sent received) s' →
        sent = L ∧ received = L := by
  intro h
  have hprint := h 1 _ _ _ 1 0 (Machine.exec_run_get interruptedEcho_isSome) ⟨.main, rfl⟩
  exact absurd hprint.2 (by decide)

end SystemyOperacyjne.SignalEcho
