import Mathlib.Order.Bounds.Basic
import SystemyOperacyjne.Analysis.EchoCounting

/-!
# The most that the parent can still report

A `SIG1` is lost when it is refused, or when the child ends with it. Some are lost already, and
some cannot be saved any more: when the handler's run for `SIG2` has interrupted the run for a
`SIG1`, the child ends before that run goes on, and until then `SIG1` is blocked, so that
everything the child has not answered goes with it (`Process.doomed`). All the others can still
come back, whatever the type of the signals, and whatever has happened: the greatest number that
the parent can report is `L` less the lost and the doomed.
-/

set_option autoImplicit false

namespace SystemyOperacyjne.SignalEcho

open Library

variable {type : ℤ} {L : ℕ} {s s' : State} {e : Event} {pid sender : Pid} {signum x y : Signum}
  {p q : Process} {f : Frame} {frames : List Frame} {senders : List Pid}

/-! ## The runs of the handler in one process -/

namespace Process

/-- What the process would lose if it ended now, if it cannot do anything else any more: a run of
`handler` for `SIG2` has interrupted another one. -/
def doomed (p : Process) : ℕ :=
  match p.frames with
  | f :: _ :: _ => if f.signum.isSIG1 then 0 else p.unanswered
  | _ => 0

/-- **How the runs of `handler` are nested**: only the program's two signals occur, no signal
interrupts its own handler, a run for `SIG2` is at its beginning, and what has ended has nothing
left. -/
structure Nests (x y : Signum) (p : Process) : Prop where
  pending : ∀ signum, p.pending signum ≠ [] → signum = x ∨ signum = y
  kinds : ∀ f ∈ p.frames, f.signum = x ∨ f.signum = y
  nodup : (p.frames.map Frame.signum).Nodup
  last : ∀ f ∈ p.frames, f.signum = y → f.pc = .test
  gone : p.exited = true → p.frames = [] ∧ ∀ signum, p.pending signum = []

/-- The process has ended, or its `SIG2` is pending or handled. -/
def Told (y : Signum) (p : Process) : Prop :=
  p.exited = false → p.pending y ≠ [] ∨ ∃ f ∈ p.frames, f.signum = y

/-- A process starts without a run of `handler`. -/
theorem nests_initial : Nests x y .initial := by
  constructor
  · intro signum h
    exact absurd rfl h
  · intro f hf
    cases hf
  · exact List.nodup_nil
  · intro f hf
    cases hf
  · intro h
    cases h

/-- It ends without one. -/
theorem nests_exit : Nests x y p.exit := by
  constructor
  · intro signum h
    exact absurd rfl h
  · intro f hf
    cases hf
  · exact List.nodup_nil
  · intro f hf
    cases hf
  · exact fun _ => ⟨rfl, fun _ => rfl⟩

/-- A signal sent does not run yet. -/
@[simp]
theorem post_frames (p : Process) (signum : Signum) (sender : Pid) :
    (p.post signum sender).frames = p.frames := by
  unfold post
  split <;> rfl

/-- A signal of the two may be sent. -/
theorem Nests.post (h : p.Nests x y) (hkind : signum = x ∨ signum = y) :
    (p.post signum sender).Nests x y := by
  cases hrefuses : p.refuses signum with
  | true =>
    rw [post_of_refuses hrefuses]
    exact h
  | false =>
    have halive := (Bool.or_eq_false_iff.mp hrefuses).1
    rw [post_of_accepts hrefuses]
    constructor
    · intro z hz
      by_cases hzs : z = signum
      · rw [hzs]
        exact hkind
      · simp only [Function.update_of_ne hzs] at hz
        exact h.pending z hz
    · exact h.kinds
    · exact h.nodup
    · exact h.last
    · intro hexited
      rw [halive] at hexited
      cases hexited

/-- `handler` is called for a signal that is not blocked. -/
theorem Nests.call (h : p.Nests x y) (hp : p.pending signum = pid :: senders)
    (hfree : p.frames.any (·.signum = signum) = false) : (p.call signum pid senders).Nests x y := by
  have hkind := h.pending signum (by simp [hp])
  constructor
  · intro z hz
    by_cases hzs : z = signum
    · rw [hzs]
      exact hkind
    · simp only [Process.call, Function.update_of_ne hzs] at hz
      exact h.pending z hz
  · intro f hf
    rcases List.mem_cons.mp hf with rfl | hf
    · exact hkind
    · exact h.kinds f hf
  · apply List.nodup_cons.mpr
    constructor
    · intro hmem
      obtain ⟨f, hf, heq⟩ := List.mem_map.mp hmem
      have hnone := List.any_eq_false.mp hfree f hf
      exact hnone (decide_eq_true heq)
    · exact h.nodup
  · intro f hf hsignum
    rcases List.mem_cons.mp hf with rfl | hf
    · rfl
    · exact h.last f hf hsignum
  · intro hexited
    have hempty := (h.gone hexited).2 signum
    rw [hp] at hempty
    cases hempty

/-- The run of `handler` on top goes on, not one for `SIG2`. -/
theorem Nests.moveTop (h : p.Nests x y) (hp : p.frames = f :: frames) {pc : HandlerPc}
    (hne : f.signum ≠ y) (hpending : q.pending = p.pending) (hexited : q.exited = p.exited)
    (hq : q.frames = { f with pc := pc } :: frames) : q.Nests x y := by
  have hmap : q.frames.map Frame.signum = p.frames.map Frame.signum := by rw [hq, hp]; rfl
  constructor
  · rw [hpending]
    exact h.pending
  · intro g hg
    rw [hq] at hg
    rcases List.mem_cons.mp hg with rfl | hg
    · exact h.kinds f (by simp [hp])
    · exact h.kinds g (by simp [hp, hg])
  · rw [hmap]
    exact h.nodup
  · intro g hg hsignum
    rw [hq] at hg
    rcases List.mem_cons.mp hg with rfl | hg
    · exact absurd hsignum hne
    · exact h.last g (by simp [hp, hg]) hsignum
  · intro hx
    rw [hexited] at hx
    have hempty := (h.gone hx).1
    rw [hp] at hempty
    cases hempty

/-- It returns. -/
theorem Nests.popTop (h : p.Nests x y) (hp : p.frames = f :: frames) :
    Nests x y { p with frames := frames } := by
  have hmap : (f :: frames).map Frame.signum = p.frames.map Frame.signum := by rw [hp]
  constructor
  · exact h.pending
  · intro g hg
    exact h.kinds g (by simp only [hp]; exact List.mem_cons_of_mem f hg)
  · have hnodup := h.nodup
    rw [← hmap] at hnodup
    exact (List.nodup_cons.mp hnodup).2
  · intro g hg
    exact h.last g (by simp only [hp]; exact List.mem_cons_of_mem f hg)
  · intro hexited
    have hempty := (h.gone hexited).1
    rw [hp] at hempty
    cases hempty

/-- A process that has been told stays so when a signal comes. -/
theorem Told.post (h : p.Told y) : (p.post signum sender).Told y := by
  intro halive
  rw [post_exited] at halive
  rw [post_frames]
  rcases h halive with hpending | hframe
  · left
    cases hrefuses : p.refuses signum with
    | true =>
      rw [post_of_refuses hrefuses]
      exact hpending
    | false =>
      rw [post_of_accepts hrefuses]
      by_cases hy : y = signum
      · simp [hy]
      · simp only [Function.update_of_ne hy]
        exact hpending
  · exact .inr hframe

/-- Once it has been sent, it is there. -/
theorem told_post (p : Process) (sender : Pid) : (p.post y sender).Told y := by
  intro halive
  rw [post_exited] at halive
  left
  cases hrefuses : p.refuses y with
  | true =>
    rw [post_of_refuses hrefuses]
    simp only [refuses, halive, Bool.false_or] at hrefuses
    intro hempty
    rw [hempty] at hrefuses
    cases y <;> cases hrefuses
  | false =>
    rw [post_of_accepts hrefuses]
    simp

/-- It stays so when `handler` is called. -/
theorem Told.call (h : p.Told y) : (p.call signum pid senders).Told y := by
  intro halive
  by_cases hy : y = signum
  · right
    exact ⟨⟨.test, signum, pid⟩, List.mem_cons_self, hy.symm⟩
  · rcases h halive with hpending | ⟨f, hf, hsignum⟩
    · left
      simp only [Process.call, Function.update_of_ne hy]
      exact hpending
    · right
      exact ⟨f, List.mem_cons_of_mem _ hf, hsignum⟩

/-- It stays so when the run on top goes on. -/
theorem Told.moveTop (h : p.Told y) (hp : p.frames = f :: frames) {pc : HandlerPc}
    (hpending : q.pending = p.pending) (hexited : q.exited = p.exited)
    (hq : q.frames = { f with pc := pc } :: frames) : q.Told y := by
  intro halive
  rw [hexited] at halive
  rw [hpending, hq]
  rcases h halive with hpend | ⟨g, hg, hsignum⟩
  · exact .inl hpend
  · right
    rw [hp] at hg
    rcases List.mem_cons.mp hg with rfl | hg
    · exact ⟨_, List.mem_cons_self, hsignum⟩
    · exact ⟨g, List.mem_cons_of_mem _ hg, hsignum⟩

/-- It stays so when another run than that for `SIG2` returns. -/
theorem Told.popTop (h : p.Told y) (hp : p.frames = f :: frames) (hne : f.signum ≠ y) :
    Told y { p with frames := frames } := by
  intro halive
  rcases h halive with hpending | ⟨g, hg, hsignum⟩
  · exact .inl hpending
  · right
    rw [hp] at hg
    rcases List.mem_cons.mp hg with rfl | hg
    · exact absurd hsignum hne
    · exact ⟨g, hg, hsignum⟩

/-- Nothing is doomed while the run on top is one for `SIG1`. -/
theorem doomed_of_isSIG1 (hp : p.frames = f :: frames) (hkind : f.signum.isSIG1 = true) :
    p.doomed = 0 := by
  unfold doomed
  rw [hp]
  cases frames with
  | nil => rfl
  | cons g frames => exact if_pos hkind

/-- What is doomed is unanswered. -/
theorem doomed_le_unanswered (p : Process) : p.doomed ≤ p.unanswered := by
  unfold doomed
  split
  · split
    · exact Nat.zero_le _
    · exact Nat.le_refl _
  · exact Nat.zero_le _

/-- Nothing is doomed as long as a signal is not blocked. -/
theorem Nests.doomed_eq_zero (h : p.Nests x y) (hne : x ≠ y) (hpending : p.pending signum ≠ [])
    (hfree : p.frames.any (·.signum = signum) = false) : p.doomed = 0 := by
  unfold doomed
  split
  · rename_i f g frames hp
    have hnodup := h.nodup
    rw [hp] at hnodup
    have hf := h.kinds f (by simp [hp])
    have hg := h.kinds g (by simp [hp])
    have hfg : f.signum ≠ g.signum := by
      intro heq
      simp [heq] at hnodup
    simp only [hp, List.any_cons, Bool.or_eq_false_iff, decide_eq_false_iff_not] at hfree
    -- both signals are blocked
    exfalso
    rcases h.pending signum hpending with rfl | rfl
    · exact hfg ((hf.resolve_left hfree.1).trans (hg.resolve_left hfree.2.1).symm)
    · exact hfg ((hf.resolve_right hfree.1).trans (hg.resolve_right hfree.2.1).symm)
  · rfl

/-- When the run on top has returned, it has not interrupted another one that was interrupted. -/
theorem Nests.doomed_popTop (h : p.Nests x y) (hp : p.frames = f :: frames) :
    doomed { p with frames := frames } = 0 := by
  unfold doomed
  split
  · rename_i g k rest hframes
    dsimp only at hframes
    have hnodup := h.nodup
    rw [hp, hframes] at hnodup
    have hf := h.kinds f (by simp [hp])
    have hg := h.kinds g (by simp [hp, hframes])
    have hk := h.kinds k (by simp [hp, hframes])
    -- three runs for two signals
    exfalso
    simp only [List.map_cons, List.nodup_cons, List.mem_cons, not_or] at hnodup
    obtain ⟨⟨hfg, hfk, -⟩, ⟨hgk, -⟩, -⟩ := hnodup
    rcases hf with hf | hf
    · have hgy := hg.resolve_left fun heq => hfg (hf.trans heq.symm)
      have hky := hk.resolve_left fun heq => hfk (hf.trans heq.symm)
      exact hgk (hgy.trans hky.symm)
    · have hgx := hg.resolve_right fun heq => hfg (hf.trans heq.symm)
      have hkx := hk.resolve_right fun heq => hfk (hf.trans heq.symm)
      exact hgk (hgx.trans hkx.symm)
  · rfl

/-- A signal sent takes nothing away. -/
theorem doomed_post (p : Process) (signum : Signum) (sender : Pid) :
    p.doomed ≤ (p.post signum sender).doomed := by
  have hunanswered : p.unanswered ≤ (p.post signum sender).unanswered := by
    cases hkind : signum.isSIG1 with
    | true =>
      have hcount := unanswered_post hkind p sender
      split at hcount <;> omega
    | false => rw [unanswered_post_of_not hkind]
  unfold doomed
  rw [post_frames]
  split
  · split
    · exact Nat.le_refl _
    · exact hunanswered
  · exact Nat.le_refl _

end Process

/-! ## Both processes -/

/-- The runs of `handler` are nested in both processes, and the child has been told to end once
everything has been sent. -/
structure Nested (x y : Signum) (s : State) : Prop where
  parent : s.parent.Nests x y
  child : s.child.Nests x y
  told : s.main.sending = false → s.child.Told y

/-- Nothing runs in the beginning. -/
theorem nested_start : Nested x y start := by
  constructor
  · exact Process.nests_initial
  · exact Process.nests_initial
  · intro h
    cases h

/-- The program's signals for a type: the child sends back the one that it gets. -/
structure Signals (type : ℤ) (x y : Signum) : Prop where
  sig1 : sig1 type = some x
  sig2 : sig2 type = some y
  reply : (if type = 3 then Signum.sigrtmin else .sigusr1) = x
  isSIG1 : x.isSIG1 = true
  isSIG2 : y.isSIG1 = false

/-- Every type that the program takes has its two signals. -/
theorem exists_signals (htype : (sig1 type).isSome) : ∃ x y, Signals type x y := by
  unfold sig1 at htype
  by_cases h3 : type = 3
  · refine ⟨.sigrtmin, .sigrtminPlus1, ⟨?_, ?_, ?_, rfl, rfl⟩⟩ <;> simp [h3, sig1, sig2]
  · by_cases h2 : type = 2
    · refine ⟨.sigusr1, .sigusr2, ⟨?_, ?_, ?_, rfl, rfl⟩⟩ <;> simp [h2, sig1, sig2]
    · by_cases h1 : type = 1
      · refine ⟨.sigusr1, .sigusr2, ⟨?_, ?_, ?_, rfl, rfl⟩⟩ <;> simp [h1, sig1, sig2]
      · simp [h3, h2, h1] at htype

/-- A `SIG1` is no `SIG2`. -/
theorem Signals.ne_of_isSIG1 (h : Signals type x y) (hkind : signum.isSIG1 = true) :
    signum ≠ y := by
  intro heq
  rw [heq, h.isSIG2] at hkind
  cases hkind

/-- The two signals differ. -/
theorem Signals.ne (h : Signals type x y) : x ≠ y :=
  h.ne_of_isSIG1 h.isSIG1

/-- `main` only sends the child signals. -/
theorem doomed_mainStep (hstep : mainStep type L s = some (e, s')) :
    s.child.doomed ≤ s'.child.doomed := by
  obtain ⟨main, parent, child⟩ := s
  cases main with
  | kill i =>
    simp only [SignalEcho.mainStep] at hstep
    split at hstep
    · cases hstep
      exact Process.doomed_post ..
    · cases hstep
      exact Nat.le_refl _
  | killLast =>
    simp only [SignalEcho.mainStep] at hstep
    split at hstep
    · cases hstep
      exact Process.doomed_post ..
    · cases hstep
      exact Nat.le_refl _
  | waitChild interrupted =>
    simp only [SignalEcho.mainStep] at hstep
    split at hstep
    · cases hstep
      exact Nat.le_refl _
    · cases hstep
  | printed => cases hstep
  | test i | count i | sleep i | callWait | print =>
    cases hstep
    exact Nat.le_refl _

/-- A step of `main` keeps it. -/
theorem Nested.mainStep (hxy : Signals type x y) (h : Nested x y s)
    (hstep : mainStep type L s = some (e, s')) : Nested x y s' := by
  obtain ⟨main, parent, child⟩ := s
  cases main with
  | test i =>
    cases hstep
    refine ⟨h.parent, h.child, ?_⟩
    intro hsending
    by_cases hi : i < L
    · simp [hi, MainPc.sending] at hsending
    · simp [hi, MainPc.sending] at hsending
  | kill i =>
    simp only [SignalEcho.mainStep, hxy.sig1, Option.some.injEq, Prod.mk.injEq] at hstep
    obtain ⟨-, rfl⟩ := hstep
    refine ⟨h.parent, h.child.post (.inl rfl), ?_⟩
    intro hsending
    cases hsending
  | count i =>
    cases hstep
    refine ⟨⟨h.parent.pending, h.parent.kinds, h.parent.nodup, h.parent.last, h.parent.gone⟩,
      h.child, ?_⟩
    intro hsending
    cases hsending
  | sleep i =>
    cases hstep
    refine ⟨h.parent, h.child, ?_⟩
    intro hsending
    cases hsending
  | killLast =>
    simp only [SignalEcho.mainStep, hxy.sig2, Option.some.injEq, Prod.mk.injEq] at hstep
    obtain ⟨-, rfl⟩ := hstep
    exact ⟨h.parent, h.child.post (.inr rfl), fun _ => Process.told_post child .parent⟩
  | callWait =>
    cases hstep
    exact ⟨h.parent, h.child, fun _ => h.told rfl⟩
  | waitChild interrupted =>
    simp only [SignalEcho.mainStep] at hstep
    split at hstep
    · cases hstep
      exact ⟨h.parent, h.child, fun _ => h.told rfl⟩
    · cases hstep
  | print =>
    cases hstep
    exact ⟨h.parent, h.child, fun _ => h.told rfl⟩
  | printed => cases hstep

/-- So does one of the parent's `handler`, which leaves the child alone. -/
theorem Nested.handlerStep_parent (h : Nested x y s) (hs : Exchange L s) (hxy : Signals type x y)
    (hstep : handlerStep type .parent s = some (e, s')) : Nested x y s' ∧ s'.child = s.child := by
  obtain ⟨main, parent, child⟩ := s
  simp only [handlerStep, State.process] at hstep
  split at hstep
  · cases hstep
  · rename_i f frames hframes
    obtain ⟨hsiPid, hkind⟩ := hs.parent.frames f (by simp [hframes])
    have hne : f.siPid ≠ .parent := by
      rw [hsiPid]
      exact Pid.noConfusion
    have hsignum := hxy.ne_of_isSIG1 hkind
    split at hstep
    · rw [if_pos hkind, if_neg hne] at hstep
      cases hstep
      exact ⟨⟨h.parent.moveTop hframes hsignum rfl rfl rfl, h.child, h.told⟩, rfl⟩
    · rename_i hpc
      exact absurd (hs.parent.kill f (by simp [hframes]) hpc).1 hne
    · cases hstep
      exact ⟨⟨h.parent.popTop hframes, h.child, h.told⟩, rfl⟩

/-- What the child's `handler` does: it goes on with a `SIG1`, or it ends the child. -/
theorem Nested.handlerStep_child (h : Nested x y s) (hs : Exchange L s) (hxy : Signals type x y)
    (hstep : handlerStep type .child s = some (e, s')) :
    Nested x y s' ∧ s.child.doomed ≤ e.lost + s'.child.doomed := by
  obtain ⟨main, parent, child⟩ := s
  simp only [handlerStep, State.process] at hstep
  split at hstep
  · cases hstep
  · rename_i f frames hframes
    have hmem : f ∈ child.frames := by simp [hframes]
    split at hstep
    · rename_i hpc
      split at hstep
      · rename_i hkind
        rw [if_pos (hs.child.frames f hmem).1] at hstep
        cases hstep
        constructor
        · exact ⟨h.parent, h.child.moveTop hframes (hxy.ne_of_isSIG1 hkind) rfl rfl rfl,
            fun hsending => (h.told hsending).moveTop hframes rfl rfl rfl⟩
        · rw [Process.doomed_of_isSIG1 hframes hkind]
          exact Nat.zero_le _
      · cases hstep
        constructor
        · exact ⟨h.parent, Process.nests_exit, fun _ halive => by cases halive⟩
        · exact (Process.doomed_le_unanswered child).trans (Nat.le_add_right _ _)
    · rename_i hpc
      have hkind := (hs.child.kill f hmem hpc).2
      rw [hxy.reply] at hstep
      cases hstep
      constructor
      · exact ⟨h.parent.post (.inl rfl),
          h.child.moveTop hframes (hxy.ne_of_isSIG1 hkind) rfl rfl rfl,
          fun hsending => (h.told hsending).moveTop hframes rfl rfl rfl⟩
      · rw [Process.doomed_of_isSIG1 hframes hkind]
        exact Nat.zero_le _
    · rename_i hpc
      have hne : f.signum ≠ y := by
        intro heq
        rw [h.child.last f hmem heq] at hpc
        cases hpc
      have hkind : f.signum.isSIG1 = true := by
        rw [(h.child.kinds f hmem).resolve_right hne]
        exact hxy.isSIG1
      cases hstep
      constructor
      · exact ⟨h.parent, h.child.popTop hframes,
          fun hsending => (h.told hsending).popTop hframes hne⟩
      · rw [Process.doomed_of_isSIG1 hframes hkind]
        exact Nat.zero_le _

/-- A signal is not blocked when `handler` is called for it. -/
theorem free_of_deliver (hstep : deliver pid signum s = some (e, s')) :
    (s.process pid).frames.any (·.signum = signum) = false := by
  simp only [SignalEcho.deliver] at hstep
  split at hstep
  · cases hstep
  · split at hstep
    · cases hstep
    · rename_i hfree
      simpa using hfree

/-- A call of `handler`. In a process that is doomed, all signals are blocked. -/
theorem Nested.deliver (h : Nested x y s) (hxy : Signals type x y)
    (hstep : deliver pid signum s = some (e, s')) :
    Nested x y s' ∧ s.child.doomed ≤ s'.child.doomed := by
  have hfree := free_of_deliver hstep
  obtain ⟨sender, senders, hpending, -, rfl⟩ := deliver_cases hstep
  cases pid with
  | parent =>
    constructor
    · refine ⟨h.parent.call hpending hfree, h.child, ?_⟩
      intro hsending
      simp only [State.setProcess, State.interrupt, MainPc.sending_interrupt] at hsending
      exact h.told hsending
    · exact Nat.le_refl _
  | child =>
    constructor
    · exact ⟨h.parent, h.child.call hpending hfree, fun hsending => (h.told hsending).call⟩
    · have hpending : s.child.pending signum ≠ [] := by
        rw [show s.child.pending signum = _ from hpending]
        exact List.cons_ne_nil _ _
      rw [h.child.doomed_eq_zero hxy.ne hpending hfree]
      exact Nat.zero_le _

/-- **A step keeps it, and what is doomed is lost or stays so.** -/
theorem Nested.step (h : Nested x y s) (hs : Exchange L s) (hxy : Signals type x y) {c : Choice}
    (hstep : next type L s c = some (e, s')) :
    Nested x y s' ∧ s.child.doomed ≤ e.lost + s'.child.doomed := by
  cases c with
  | main =>
    simp only [next] at hstep
    split at hstep
    · exact ⟨h.mainStep hxy hstep, (doomed_mainStep hstep).trans (Nat.le_add_left _ _)⟩
    · cases hstep
  | handler pid =>
    cases pid with
    | parent =>
      obtain ⟨hnested, hchild⟩ := h.handlerStep_parent hs hxy hstep
      rw [hchild]
      exact ⟨hnested, Nat.le_add_left _ _⟩
    | child => exact h.handlerStep_child hs hxy hstep
  | deliver pid signum =>
    obtain ⟨hnested, hdoomed⟩ := h.deliver hxy hstep
    exact ⟨hnested, hdoomed.trans (Nat.le_add_left _ _)⟩

/-- What stands fast in every run. -/
theorem nested_run (hxy : Signals type x y) {l : List Event}
    (hrun : (echo type L).system.Run start l s) : Nested x y s ∧ Exchange L s := by
  have htype : (SignalEcho.sig1 type).isSome := by rw [hxy.sig1]; rfl
  apply hrun.history_induction (I := fun _ s => Nested x y s ∧ Exchange L s)
  · intro l s e s' ⟨h, hs⟩ ⟨c, hstep⟩
    exact ⟨(h.step hs hxy hstep).1, (next_keeps htype hs hstep).exchange⟩
  · exact ⟨nested_start, .start⟩

/-- What is doomed is lost or still doomed later on. -/
theorem doomed_run (hxy : Signals type x y) (h : Nested x y s) (hs : Exchange L s) {m : List Event}
    (hrun : (echo type L).system.Run s m s') :
    s.child.doomed ≤ (m.map Event.lost).sum + s'.child.doomed := by
  have htype : (SignalEcho.sig1 type).isSome := by rw [hxy.sig1]; rfl
  induction hrun with
  | nil s => simp
  | @cons s t s' e m head tail ih =>
    obtain ⟨c, hstep⟩ := head
    obtain ⟨hnested, hdoomed⟩ := h.step hs hxy hstep
    have hrest := ih hnested (next_keeps htype hs hstep).exchange
    rw [List.map_cons, List.sum_cons]
    omega

/-! ## The work that is left -/

namespace Process

/-- The number of the signals pending. -/
def waiting (p : Process) : ℕ :=
  (p.pending .sigusr1).length + (p.pending .sigusr2).length + (p.pending .sigrtmin).length +
    (p.pending .sigrtminPlus1).length

/-- What a process has still to do, where a pending signal weighs `a` and a run of `handler` as
much as `w` says. -/
def work (a : ℕ) (w : HandlerPc → ℕ) (p : Process) : ℕ :=
  a * p.waiting + (p.frames.map fun f => w f.pc).sum

variable {a : ℕ} {w : HandlerPc → ℕ}

/-- A signal sent is one more thing to do. -/
theorem work_post_le (p : Process) (signum : Signum) (sender : Pid) :
    (p.post signum sender).work a w ≤ p.work a w + a := by
  cases hrefuses : p.refuses signum with
  | true =>
    rw [post_of_refuses hrefuses]
    exact Nat.le_add_right _ _
  | false =>
    have hwaiting : (p.post signum sender).waiting = p.waiting + 1 := by
      rw [post_of_accepts hrefuses]
      cases signum <;> simp [waiting, Function.update] <;> omega
    unfold work
    rw [hwaiting, post_frames, Nat.mul_succ]
    omega

/-- A call takes a pending signal and adds a run. -/
theorem work_call (hp : p.pending signum = sender :: senders) :
    (p.call signum sender senders).work a w + a = p.work a w + w .test := by
  have hwaiting : (p.call signum sender senders).waiting + 1 = p.waiting := by
    cases signum <;> simp [call, waiting, Function.update, hp] <;> omega
  unfold work
  rw [← hwaiting, Nat.mul_succ]
  simp only [call, List.map_cons, List.sum_cons]
  omega

/-- A run that goes on has less to do, as its place says. -/
theorem work_moveTop (hp : p.frames = f :: frames) {pc : HandlerPc}
    (hpending : q.pending = p.pending) (hq : q.frames = { f with pc := pc } :: frames) :
    q.work a w + w f.pc = p.work a w + w pc := by
  simp only [work, waiting, hpending, hp, hq, List.map_cons, List.sum_cons]
  omega

/-- A run that returns has nothing more to do. -/
theorem work_popTop (hp : p.frames = f :: frames) :
    work a w { p with frames := frames } + w f.pc = p.work a w := by
  simp only [work, waiting, hp, List.map_cons, List.sum_cons]
  omega

/-- A process that has ended has nothing to do. -/
theorem work_exit (p : Process) : p.exit.work a w = 0 := by
  simp [work, waiting, exit]

end Process

/-- What a run of `handler` in the parent has still to do. -/
def parentWeight : HandlerPc → ℕ
  | .test => 3
  | .kill => 2
  | .leave => 1

/-- What one in the child has: as much again for the parent. -/
def childWeight : HandlerPc → ℕ
  | .test => 8
  | .kill => 7
  | .leave => 1

/-- What `main` has still to do, with what becomes of the signals it sends. -/
def MainPc.rank (L : ℕ) : MainPc → ℕ
  | .test i => 20 * (L - i) + 20
  | .kill i => 20 * (L - i) + 19
  | .count i => 20 * (L - i) + 9
  | .sleep i => 20 * (L - i) + 8
  | .killLast => 19
  | .callWait => 3
  | .waitChild _ => 2
  | .print => 1
  | .printed => 0

/-- A wait that is interrupted is as far from the end as before. -/
theorem MainPc.rank_interrupt (pc : MainPc) : pc.interrupt.rank L = pc.rank L := by
  cases pc <;> rfl

/-- What the program has still to do. -/
def State.rank (L : ℕ) (s : State) : ℕ :=
  s.main.rank L + s.parent.work 4 parentWeight + s.child.work 9 childWeight

/-- There is a step that loses nothing but what is doomed, and leaves less to do. -/
def Offers (type : ℤ) (L : ℕ) (s : State) : Prop :=
  ∃ e s', (echo type L).system.step s e s' ∧ e.lost + s'.child.doomed ≤ s.child.doomed ∧
    s'.main ≠ .printed ∧ s'.rank L < s.rank L

/-- A choice with such a step is enough. -/
theorem Offers.of_next {c : Choice} (hstep : next type L s c = some (e, s'))
    (hlost : e.lost + s'.child.doomed ≤ s.child.doomed) (hmain : s'.main ≠ .printed)
    (hrank : s'.rank L < s.rank L) : Offers type L s :=
  ⟨e, s', ⟨c, hstep⟩, hlost, hmain, hrank⟩

/-- The parent's `handler` goes on. -/
theorem offers_parent_handler (hs : Exchange L s) (hmain : s.main ≠ .printed)
    (hp : s.parent.frames = f :: frames) : Offers type L s := by
  obtain ⟨hsiPid, hkind⟩ := hs.parent.frames f (by simp [hp])
  have hne : f.siPid ≠ .parent := by
    rw [hsiPid]
    exact Pid.noConfusion
  cases hpc : f.pc with
  | test =>
    have hnext : next type L s (.handler .parent) = some (.silent, { s with parent :=
        { s.parent with pRcounter := s.parent.pRcounter + 1,
                        frames := { f with pc := .leave } :: frames } }) := by
      simp only [next, handlerStep, State.process, hp, hpc, if_pos hkind, if_neg hne,
        State.setProcess]
    have hwork : Process.work 4 parentWeight { s.parent with
        pRcounter := s.parent.pRcounter + 1, frames := { f with pc := .leave } :: frames } +
          parentWeight f.pc = s.parent.work 4 parentWeight + parentWeight .leave :=
      Process.work_moveTop hp rfl rfl
    rw [hpc] at hwork
    apply Offers.of_next hnext (Nat.le_of_eq (Nat.zero_add _)) hmain
    simp only [parentWeight] at hwork
    simp only [State.rank]
    omega
  | kill => exact absurd (hs.parent.kill f (by simp [hp]) hpc).1 hne
  | leave =>
    have hnext : next type L s (.handler .parent) =
        some (.silent, { s with parent := { s.parent with frames := frames } }) := by
      simp only [next, handlerStep, State.process, hp, hpc, State.setProcess]
    have hwork := Process.work_popTop (a := 4) (w := parentWeight) hp
    rw [hpc] at hwork
    apply Offers.of_next hnext (Nat.le_of_eq (Nat.zero_add _)) hmain
    simp only [parentWeight] at hwork
    simp only [State.rank]
    omega

/-- An interruption does not print. -/
theorem interrupt_ne_printed {pc : MainPc} (h : pc ≠ .printed) : pc.interrupt ≠ .printed := by
  cases pc with
  | printed => exact h
  | _ => simp [MainPc.interrupt]

/-- A signal that is pending for the parent is handled. -/
theorem offers_parent_deliver (hmain : s.main ≠ .printed) (hp : s.parent.frames = [])
    (hpending : s.parent.pending signum = sender :: senders) : Offers type L s := by
  have hnext : next type L s (.deliver .parent signum) = some (.silent,
      ({ s with parent := s.parent.call signum sender senders } : State).interrupt .parent) := by
    simp [next, deliver, State.process, hpending, hp, State.setProcess]
  have hwork := Process.work_call (a := 4) (w := parentWeight) hpending
  apply Offers.of_next hnext (Nat.le_of_eq (Nat.zero_add _)) (interrupt_ne_printed hmain)
  simp only [parentWeight] at hwork
  simp only [State.rank, State.interrupt, MainPc.rank_interrupt]
  omega

/-- A signal that is pending for the child and not blocked is handled. -/
theorem offers_child_deliver (hmain : s.main ≠ .printed)
    (hpending : s.child.pending signum = sender :: senders)
    (hfree : s.child.frames.any (·.signum = signum) = false)
    (hdoomed : (s.child.call signum sender senders).doomed = 0) : Offers type L s := by
  have hnext : next type L s (.deliver .child signum) = some (.silent,
      { s with child := s.child.call signum sender senders }) := by
    simp [next, deliver, State.process, hpending, hfree, State.setProcess, State.interrupt]
  have hwork := Process.work_call (a := 9) (w := childWeight) hpending
  apply Offers.of_next hnext
  · simp only [Event.lost, hdoomed]
    exact Nat.zero_le _
  · exact hmain
  · simp only [childWeight] at hwork
    simp only [State.rank]
    omega

/-- The child's `handler` sends a `SIG1` back, to a parent that has none pending. -/
theorem offers_child_answer (h : Nested x y s) (hs : Exchange L s) (hxy : Signals type x y)
    (hmain : s.main ≠ .printed) (hp : s.child.frames = f :: frames)
    (hkind : f.signum.isSIG1 = true) (hfree : s.parent.pending x = []) : Offers type L s := by
  have hsiPid := (hs.child.frames f (by simp [hp])).1
  cases hpc : f.pc with
  | test =>
    have hnext : next type L s (.handler .child) = some (.silent, { s with child :=
        { s.child with cRcounter := s.child.cRcounter + 1,
                       frames := { f with pc := .kill } :: frames } }) := by
      simp only [next, handlerStep, State.process, hp, hpc, if_pos hkind, if_pos hsiPid,
        State.setProcess]
    have hwork : Process.work 9 childWeight { s.child with
        cRcounter := s.child.cRcounter + 1, frames := { f with pc := .kill } :: frames } +
          childWeight f.pc = s.child.work 9 childWeight + childWeight .kill :=
      Process.work_moveTop hp rfl rfl
    rw [hpc] at hwork
    apply Offers.of_next hnext
    · rw [Process.doomed_of_isSIG1 (p := { s.child with
        cRcounter := s.child.cRcounter + 1, frames := { f with pc := .kill } :: frames }) rfl hkind]
      exact Nat.zero_le _
    · exact hmain
    · simp only [childWeight] at hwork
      simp only [State.rank]
      omega
  | kill =>
    have hrefuses : s.parent.refuses x = false := by
      unfold Process.refuses
      rw [hs.parentAlive, hfree]
      cases x <;> rfl
    have hnext : next type L s (.handler .child) = some (.echoed (s.parent.refuses x),
        { s with child := { s.child with frames := { f with pc := .leave } :: frames },
                 parent := s.parent.post x .child }) := by
      simp only [next, handlerStep, State.process, hp, hpc, hxy.reply, State.setProcess]
    have hwork : Process.work 9 childWeight { s.child with
        frames := { f with pc := .leave } :: frames } + childWeight f.pc =
          s.child.work 9 childWeight + childWeight .leave :=
      Process.work_moveTop hp rfl rfl
    have hparent := Process.work_post_le (a := 4) (w := parentWeight) s.parent x .child
    rw [hpc] at hwork
    apply Offers.of_next hnext
    · rw [Process.doomed_of_isSIG1 (p := { s.child with
        frames := { f with pc := .leave } :: frames }) rfl hkind, hrefuses]
      exact Nat.zero_le _
    · exact hmain
    · simp only [childWeight] at hwork
      simp only [State.rank]
      omega
  | leave =>
    have hnext : next type L s (.handler .child) =
        some (.silent, { s with child := { s.child with frames := frames } }) := by
      simp only [next, handlerStep, State.process, hp, hpc, State.setProcess]
    have hwork := Process.work_popTop (a := 9) (w := childWeight) hp
    rw [hpc] at hwork
    apply Offers.of_next hnext
    · rw [h.child.doomed_popTop hp]
      exact Nat.zero_le _
    · exact hmain
    · simp only [childWeight] at hwork
      simp only [State.rank]
      omega

/-- The child ends with nothing but what is doomed. -/
theorem offers_child_exit (h : Nested x y s) (hmain : s.main ≠ .printed)
    (hp : s.child.frames = f :: frames) (hsignum : f.signum = y) (hkind : f.signum.isSIG1 = false)
    (hsaved : s.child.unanswered ≤ s.child.doomed) : Offers type L s := by
  have hpc := h.child.last f (by simp [hp]) hsignum
  have hnext : next type L s (.handler .child) =
      some (.exit s.child.unanswered, { s with child := s.child.exit }) := by
    simp only [next, handlerStep, State.process, hp, hpc, hkind, Bool.false_eq_true, if_false,
      State.setProcess]
  have hwork : 0 < s.child.work 9 childWeight := by
    simp only [Process.work, hp, List.map_cons, List.sum_cons, hpc, childWeight]
    omega
  apply Offers.of_next hnext
  · exact hsaved
  · exact hmain
  · simp only [State.rank, Process.work_exit]
    omega

/-- `main` goes on, where the child has nothing left and the parent handles nothing. -/
theorem offers_main (h : Nested x y s) (hs : Exchange L s) (hxy : Signals type x y)
    (hmain : s.main ≠ .printed) (hprint : s.main ≠ .print) (hparent : s.parent.frames = [])
    (hchild : s.child.frames = []) (hfree : s.child.pending x = []) : Offers type L s := by
  have hdoomed : ∀ {p : Process}, p.frames = s.child.frames → p.doomed = 0 := by
    intro p hp
    unfold Process.doomed
    rw [hp, hchild]
  have hgo : ∀ pc : MainPc, mainStep type L s = some (.silent, { s with main := pc }) →
      pc ≠ .printed → pc.rank L < s.main.rank L → Offers type L s := by
    intro pc hstep hpc hrank
    have hnext : next type L s .main = some (.silent, { s with main := pc }) :=
      (if_pos hparent).trans hstep
    apply Offers.of_next hnext (Nat.le_of_eq (Nat.zero_add _)) hpc
    simp only [State.rank]
    omega
  have hbounded := hs.bounded
  cases hm : s.main with
  | test i =>
    rw [hm] at hbounded
    by_cases hi : i < L
    · apply hgo (.kill i)
      · simp only [mainStep, hm, if_pos hi]
      · simp
      · rw [hm]
        simp only [MainPc.rank]
        omega
    · apply hgo .killLast
      · simp only [mainStep, hm, if_neg hi]
      · simp
      · rw [hm]
        simp only [MainPc.rank]
        omega
  | kill i =>
    have halive := hs.childAlive (by rw [hm]; rfl)
    have hrefuses : s.child.refuses x = false := by
      unfold Process.refuses
      rw [halive, hfree]
      cases x <;> rfl
    have hnext : next type L s .main = some (.sent (s.child.refuses x),
        { s with child := s.child.post x .parent, main := .count i }) := by
      simp only [next, if_pos hparent, mainStep, hm, hxy.sig1]
    have hwork := Process.work_post_le (a := 9) (w := childWeight) s.child x .parent
    apply Offers.of_next hnext
    · rw [hdoomed (Process.post_frames ..), hrefuses]
      exact Nat.zero_le _
    · simp
    · simp only [State.rank, hm, MainPc.rank]
      omega
  | count i =>
    have hnext : next type L s .main = some (.silent, { s with
        parent := { s.parent with pScounter := s.parent.pScounter + 1 }, main := .sleep i }) := by
      simp only [next, if_pos hparent, mainStep, hm]
    have hwork : Process.work 4 parentWeight { s.parent with
        pScounter := s.parent.pScounter + 1 } = s.parent.work 4 parentWeight := rfl
    apply Offers.of_next hnext (Nat.le_of_eq (Nat.zero_add _)) (by simp)
    simp only [State.rank, hm, MainPc.rank, hwork]
    omega
  | sleep i =>
    rw [hm] at hbounded
    have hi : i < L := hbounded
    apply hgo (.test (i + 1))
    · simp only [mainStep, hm]
    · simp
    · rw [hm]
      simp only [MainPc.rank]
      omega
  | killLast =>
    have hnext : next type L s .main = some (.silent,
        { s with child := s.child.post y .parent, main := .callWait }) := by
      simp only [next, if_pos hparent, mainStep, hm, hxy.sig2]
    have hwork := Process.work_post_le (a := 9) (w := childWeight) s.child y .parent
    apply Offers.of_next hnext
    · rw [hdoomed (Process.post_frames ..)]
      exact Nat.zero_le _
    · simp
    · simp only [State.rank, hm, MainPc.rank]
      omega
  | callWait =>
    apply hgo (.waitChild false)
    · simp only [mainStep, hm]
    · simp
    · rw [hm]
      simp only [MainPc.rank]
      omega
  | waitChild interrupted =>
    by_cases hback : s.child.exited ∨ interrupted
    · apply hgo .print
      · simp only [mainStep, hm, if_pos hback]
      · simp
      · rw [hm]
        simp only [MainPc.rank]
        omega
    · -- the child has not ended, and its `SIG2` is pending
      have halive : s.child.exited = false := by simpa using fun hexited => hback (.inl hexited)
      have htold := h.told (by rw [hm]; rfl) halive
      cases hpending : s.child.pending y with
      | nil =>
        rcases htold with hne | ⟨f, hf, -⟩
        · exact absurd hpending hne
        · rw [hchild] at hf
          cases hf
      | cons sender senders =>
        apply offers_child_deliver hmain hpending
        · rw [hchild]
          rfl
        · unfold Process.doomed
          simp [Process.call, hchild]
  | print => exact absurd hm hprint
  | printed => exact absurd hm hmain

/-- Everything sent has been answered, and `main` is before its last line. -/
structure Settled (s : State) : Prop where
  main : s.main = .print
  idle : s.parent.frames = []
  underWay : s.underWay = 0

/-- When no `SIG1` is pending in a process, only the runs of `handler` have any to answer. -/
theorem Process.Nests.unanswered_eq (h : p.Nests x y) (hxy : Signals type x y)
    (hfree : p.pending x = []) : p.unanswered = p.frames.countP Frame.unanswered := by
  have hempty : ∀ z : Signum, z.isSIG1 = true → p.pending z = [] := by
    intro z hz
    by_contra hne
    rcases h.pending z hne with rfl | rfl
    · exact hne hfree
    · rw [hxy.isSIG2] at hz
      cases hz
  unfold Process.unanswered
  rw [hempty .sigusr1 rfl, hempty .sigrtmin rfl]
  simp

/-- **Until everything is settled there is something to do**: in the parent first, then in the
child, and then `main` goes on. -/
theorem offers (h : Nested x y s) (hs : Exchange L s) (hxy : Signals type x y)
    (hmain : s.main ≠ .printed) (hsettled : ¬ Settled s) : Offers type L s := by
  cases hparent : s.parent.frames with
  | cons f frames => exact offers_parent_handler hs hmain hparent
  | nil =>
    cases hback : s.parent.pending x with
    | cons sender senders => exact offers_parent_deliver hmain hparent hback
    | nil =>
      cases hchild : s.child.frames with
      | nil =>
        cases hfree : s.child.pending x with
        | cons sender senders =>
          apply offers_child_deliver hmain hfree
          · rw [hchild]
            rfl
          · exact Process.doomed_of_isSIG1 rfl hxy.isSIG1
        | nil =>
          apply offers_main h hs hxy hmain _ hparent hchild hfree
          intro hprint
          apply hsettled
          constructor
          · exact hprint
          · exact hparent
          · unfold State.underWay
            rw [h.child.unanswered_eq hxy hfree, h.parent.unanswered_eq hxy hback, hchild, hparent]
            rfl
      | cons f frames =>
        cases hkind : f.signum.isSIG1 with
        | true => exact offers_child_answer h hs hxy hmain hchild hkind hback
        | false =>
          have hf := h.child.kinds f (by simp [hchild])
          have hsignum : f.signum = y := by
            apply hf.resolve_left
            intro hx
            rw [hx, hxy.isSIG1] at hkind
            cases hkind
          cases frames with
          | cons g rest =>
            -- what the child has not answered is doomed
            apply offers_child_exit h hmain hchild hsignum hkind
            unfold Process.doomed
            rw [hchild]
            simp [hkind]
          | nil =>
            cases hfree : s.child.pending x with
            | cons sender senders =>
              apply offers_child_deliver hmain hfree
              · simp [hchild, hsignum, hxy.ne.symm]
              · exact Process.doomed_of_isSIG1 rfl hxy.isSIG1
            | nil =>
              apply offers_child_exit h hmain hchild hsignum hkind
              rw [h.child.unanswered_eq hxy hfree, hchild]
              simp [Frame.unanswered, hkind]

/-- A state of a run before the last line, with so much lost or doomed. -/
def Losing (type : ℤ) (L n : ℕ) (s : State) : Prop :=
  s.main ≠ .printed ∧ ∃ l, (echo type L).system.Run start l s ∧
    (l.map Event.lost).sum + s.child.doomed = n

/-- The way on which nothing more is lost. -/
theorem Losing.can_settle (hxy : Signals type x y) {n : ℕ} (h : Losing type L n s) :
    ∃ m s', (echo type L).system.Run s m s' ∧ (∀ e ∈ m, True) ∧ Settled s' ∧
      Losing type L n s' := by
  apply System.drain (fun _ => True) (State.rank L) _ h
  intro s hs hsettled
  obtain ⟨hmain, l, hrun, hn⟩ := hs
  obtain ⟨hnested, hexchange⟩ := nested_run hxy hrun
  obtain ⟨e, s', hstep, hlost, hmain', hrank⟩ := offers hnested hexchange hxy hmain hsettled
  have hdoomed := doomed_run hxy hnested hexchange (.single hstep)
  refine ⟨e, s', hstep, trivial, ⟨hmain', l ++ [e], hrun.append (.single hstep), ?_⟩, hrank⟩
  simp only [List.map_append, List.sum_append, List.map_cons, List.map_nil, List.sum_cons,
    List.sum_nil] at hdoomed ⊢
  omega

/-- **The most that the parent can still report**: in every state of a run before the last line,
for each type of signals, the greatest number of signals that the parent may come to print as
received is `L` less those that have been lost and those that are doomed.
SOURCE: cw04/zad3/main.c:27-49, cw04/zad3/main.c:87-120 -/
theorem most_received (htype : (sig1 type).isSome) {l : List Event}
    (hrun : (echo type L).system.Run start l s) (hmain : s.main ≠ .printed) :
    IsGreatest {received | ∃ m s' sent s'', (echo type L).system.Run s m s' ∧
        (echo type L).system.step s' (.printed sent received) s''}
      (L - ((l.map Event.lost).sum + s.child.doomed)) := by
  obtain ⟨x, y, hxy⟩ := exists_signals htype
  constructor
  · obtain ⟨m, s', hm, -, hsettled, -, l', hl', hn⟩ :=
      Losing.can_settle hxy ⟨hmain, l, hrun, rfl⟩
    obtain ⟨-, hbalance⟩ := run_balance htype hl'
    have hdoomed := Process.doomed_le_unanswered s'.child
    have hquiet := hsettled.underWay
    rw [hsettled.main] at hbalance
    refine ⟨m, s', s'.parent.pScounter, { s' with main := .printed }, hm, ⟨.main, ?_⟩⟩
    have hreceived : s'.parent.pRcounter = L - ((l.map Event.lost).sum + s.child.doomed) := by
      simp only [MainPc.sent, State.underWay] at hbalance hquiet
      omega
    rw [← hreceived]
    simp only [echo, next, if_pos hsettled.idle, mainStep, hsettled.main]
  · rintro received ⟨m, s', sent, s'', hm, ⟨c, hstep⟩⟩
    obtain ⟨hprint, -, rfl⟩ := printed_of_next hstep
    obtain ⟨hnested, hexchange⟩ := nested_run hxy hrun
    obtain ⟨-, hbalance⟩ := run_balance htype (hrun.append hm)
    have hdoomed := doomed_run hxy hnested hexchange hm
    have hleft := Process.doomed_le_unanswered s'.child
    rw [hprint] at hbalance
    simp only [MainPc.sent, State.underWay, List.map_append, List.sum_append] at hbalance
    omega

/-- With `Type` 1, the second of two signals is sent while the first one is pending. -/
def hastyEcho : List Choice :=
  [.main, .main, .main, .main, .main, .main]

/-- The hasty schedule can be followed. -/
theorem hastyEcho_isSome : ((echo 1 2).exec start hastyEcho).isSome := by
  decide +kernel

/-- The second signal is refused, and one is all that is reported. -/
theorem most_received_hasty :
    let last := ((echo 1 2).exec start hastyEcho).get hastyEcho_isSome
    IsGreatest {received | ∃ m s' sent s'', (echo 1 2).system.Run last.2 m s' ∧
      (echo 1 2).system.step s' (.printed sent received) s''} 1 :=
  most_received rfl (Machine.exec_run_get hastyEcho_isSome) (by decide +kernel)

end SystemyOperacyjne.SignalEcho
