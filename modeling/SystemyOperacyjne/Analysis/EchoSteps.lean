import SystemyOperacyjne.Model.SignalEcho

/-!
# What the steps of the echo do

A `SIG1` that the parent sends is pending for the child, then in a run of `handler`, then pending
for the parent and in a run of `handler` again, which counts it. `Keeps` says of a step that it
loses no `SIG1` but those that its event shows. It rests on `Exchange`: no process gets signals
that are not meant for it, and the child is not told to end before everything has been sent.
-/

set_option autoImplicit false

namespace SystemyOperacyjne.SignalEcho

open Library

variable {type : ℤ} {L : ℕ} {s s' : State} {e : Event} {pid sender : Pid} {signum : Signum}
  {p q : Process} {f : Frame} {frames : List Frame} {senders : List Pid} {kinds : Signum → Prop}

/-! ## What one process handles -/

namespace Process

/-- All the signals of a process come from one sender, and are of the kinds given. -/
structure Hears (p : Process) (sender : Pid) (kinds : Signum → Prop) : Prop where
  pending : ∀ signum, ∀ pid ∈ p.pending signum, pid = sender ∧ kinds signum
  frames : ∀ f ∈ p.frames, f.siPid = sender ∧ kinds f.signum
  kill : ∀ f ∈ p.frames, f.pc = .kill → f.siPid = .parent ∧ f.signum.isSIG1

/-- Nothing is pending, and `handler` does not run. -/
theorem Hears.idle (hpending : ∀ signum, p.pending signum = []) (hframes : p.frames = []) :
    p.Hears sender kinds := by
  constructor
  · intro signum pid hpid
    rw [hpending] at hpid
    cases hpid
  · intro f hf
    rw [hframes] at hf
    cases hf
  · intro f hf
    rw [hframes] at hf
    cases hf

/-- The signals may be said to be of more kinds. -/
theorem Hears.mono {kinds' : Signum → Prop} (h : p.Hears sender kinds)
    (himp : ∀ signum, kinds signum → kinds' signum) : p.Hears sender kinds' := by
  constructor
  · intro signum pid hpid
    exact ⟨(h.pending signum pid hpid).1, himp _ (h.pending signum pid hpid).2⟩
  · intro f hf
    exact ⟨(h.frames f hf).1, himp _ (h.frames f hf).2⟩
  · exact h.kill

/-- A signal that is refused is lost. -/
theorem post_of_refuses (h : p.refuses signum = true) : p.post signum sender = p := by
  unfold post
  by_cases hexited : p.exited
  · rw [if_pos hexited]
  · simp only [refuses, hexited, Bool.false_or] at h
    rw [if_neg hexited, Delivery.post, if_pos h, Function.update_eq_self]

/-- One that is not waits behind the others. -/
theorem post_of_accepts (h : p.refuses signum = false) :
    p.post signum sender =
      { p with pending := Function.update p.pending signum (p.pending signum ++ [sender]) } := by
  unfold refuses at h
  obtain ⟨hexited, hdrops⟩ := Bool.or_eq_false_iff.mp h
  simp [post, Delivery.post, hexited, hdrops]

/-- One more signal of these kinds. -/
theorem Hears.post (h : p.Hears sender kinds) (hkind : kinds signum) :
    (p.post signum sender).Hears sender kinds := by
  cases hrefuses : p.refuses signum with
  | true =>
    rw [post_of_refuses hrefuses]
    exact h
  | false =>
    rw [post_of_accepts hrefuses]
    constructor
    · intro x pid hpid
      by_cases hx : x = signum
      · subst hx
        simp only [Function.update_self, List.mem_append, List.mem_singleton] at hpid
        rcases hpid with hpid | hpid
        · exact h.pending x pid hpid
        · exact ⟨hpid, hkind⟩
      · simp only [Function.update_of_ne hx] at hpid
        exact h.pending x pid hpid
    · exact h.frames
    · exact h.kill

/-- `handler` is called. -/
theorem Hears.call (h : p.Hears sender kinds) (hp : p.pending signum = pid :: senders) :
    (p.call signum pid senders).Hears sender kinds := by
  have hfirst := h.pending signum pid (by simp [hp])
  constructor
  · intro x r hr
    by_cases hx : x = signum
    · subst hx
      simp only [Process.call, Function.update_self] at hr
      exact h.pending x r (by simp [hp, hr])
    · simp only [Process.call, Function.update_of_ne hx] at hr
      exact h.pending x r hr
  · intro f hf
    rcases List.mem_cons.mp hf with rfl | hf
    · exact hfirst
    · exact h.frames f hf
  · intro f hf hkill
    rcases List.mem_cons.mp hf with rfl | hf
    · cases hkill
    · exact h.kill f hf hkill

/-- The run of `handler` on top of the others goes on. -/
theorem Hears.moveTop (h : p.Hears sender kinds) (hp : p.frames = f :: frames) (pc : HandlerPc)
    (hpc : pc = .kill → f.siPid = .parent ∧ f.signum.isSIG1) (hpending : q.pending = p.pending)
    (hq : q.frames = { f with pc := pc } :: frames) : q.Hears sender kinds := by
  have hframes : ∀ g ∈ q.frames, g = { f with pc := pc } ∨ g ∈ p.frames := by
    intro g hg
    rw [hq] at hg
    rcases List.mem_cons.mp hg with hg | hg
    · exact .inl hg
    · exact .inr (by simp [hp, hg])
  constructor
  · rw [hpending]
    exact h.pending
  · intro g hg
    rcases hframes g hg with rfl | hg
    · exact h.frames f (by simp [hp])
    · exact h.frames g hg
  · intro g hg hkill
    rcases hframes g hg with rfl | hg
    · exact hpc hkill
    · exact h.kill g hg hkill

/-- It returns. -/
theorem Hears.popTop (h : p.Hears sender kinds) (hp : p.frames = f :: frames) :
    Hears { p with frames := frames } sender kinds := by
  constructor
  · exact h.pending
  · intro g hg
    exact h.frames g (by simp [hp, hg])
  · intro g hg
    exact h.kill g (by simp [hp, hg])

/-! ## What it has not answered -/

/-- A `SIG1` sent has to be answered, unless it is refused. -/
theorem unanswered_post (hkind : signum.isSIG1) (p : Process) (sender : Pid) :
    (p.post signum sender).unanswered + (if p.refuses signum then 1 else 0) =
      p.unanswered + 1 := by
  cases hrefuses : p.refuses signum with
  | true =>
    rw [post_of_refuses hrefuses]
    simp
  | false =>
    rw [post_of_accepts hrefuses]
    unfold unanswered
    cases signum with
    | sigusr1 => simp [Function.update]; omega
    | sigrtmin => simp [Function.update]; omega
    | sigusr2 | sigrtminPlus1 => cases hkind

/-- A signal that is no `SIG1` is not to be answered. -/
theorem unanswered_post_of_not (hkind : signum.isSIG1 = false) (p : Process) (sender : Pid) :
    (p.post signum sender).unanswered = p.unanswered := by
  cases hrefuses : p.refuses signum with
  | true => rw [post_of_refuses hrefuses]
  | false =>
    rw [post_of_accepts hrefuses]
    unfold unanswered
    cases signum with
    | sigusr1 | sigrtmin => cases hkind
    | sigusr2 | sigrtminPlus1 => simp [Function.update]

/-- A signal is as unanswered while it is handled as it was before. -/
theorem unanswered_call (hp : p.pending signum = pid :: senders) :
    (p.call signum pid senders).unanswered = p.unanswered := by
  unfold call unanswered
  cases signum with
  | sigusr1 => simp [Function.update, hp, Frame.unanswered, Signum.isSIG1]; omega
  | sigusr2 => simp [Function.update, Frame.unanswered, Signum.isSIG1]
  | sigrtmin => simp [Function.update, hp, Frame.unanswered, Signum.isSIG1]; omega
  | sigrtminPlus1 => simp [Function.update, Frame.unanswered, Signum.isSIG1]

/-- The top run of `handler` goes on, and nothing is answered yet. -/
theorem unanswered_moveTop {pc : HandlerPc} (hp : p.frames = f :: frames) (hf : f.pc ≠ .leave)
    (hpc : pc ≠ .leave) (hpending : q.pending = p.pending)
    (hq : q.frames = { f with pc := pc } :: frames) : q.unanswered = p.unanswered := by
  unfold unanswered
  rw [hpending, hp, hq, List.countP_cons, List.countP_cons]
  simp [Frame.unanswered, hf, hpc]

/-- It answers a `SIG1`. -/
theorem unanswered_answer (hp : p.frames = f :: frames) (hf : f.pc ≠ .leave)
    (hkind : f.signum.isSIG1) (hpending : q.pending = p.pending)
    (hq : q.frames = { f with pc := .leave } :: frames) :
    q.unanswered + 1 = p.unanswered := by
  unfold unanswered
  rw [hpending, hp, hq, List.countP_cons, List.countP_cons]
  simp [Frame.unanswered, hf, hkind]
  omega

/-- What a run that leaves was for has been answered. -/
theorem unanswered_popTop (hp : p.frames = f :: frames) (hpc : f.pc = .leave) :
    unanswered { p with frames := frames } = p.unanswered := by
  unfold unanswered
  rw [hp, List.countP_cons]
  simp [Frame.unanswered, hpc]

end Process

/-! ## Where `main` is -/

namespace MainPc

/-- Not all of the signals have been sent to the child. -/
def sending : MainPc → Bool
  | .test _ | .kill _ | .count _ | .sleep _ | .killLast => true
  | .callWait | .waitChild _ | .print | .printed => false

/-- The number of `SIG1` sent. -/
def sent (L : ℕ) : MainPc → ℕ
  | .test i | .kill i => i
  | .count i | .sleep i => i + 1
  | .killLast | .callWait | .waitChild _ | .print | .printed => L

/-- The number of `SIG1` sent that `PScounter` counts. -/
def counted (L : ℕ) : MainPc → ℕ
  | .test i | .kill i | .count i => i
  | .sleep i => i + 1
  | .killLast | .callWait | .waitChild _ | .print | .printed => L

/-- The bound on the counter of the loop. -/
def Bounded (L : ℕ) : MainPc → Prop
  | .test i => i ≤ L
  | .kill i | .count i | .sleep i => i < L
  | .killLast | .callWait | .waitChild _ | .print | .printed => True

/-- An interruption leaves `main` at its sending. -/
@[simp]
theorem sending_interrupt (pc : MainPc) : pc.interrupt.sending = pc.sending := by
  cases pc <;> rfl

/-- It sends nothing. -/
@[simp]
theorem sent_interrupt (pc : MainPc) : pc.interrupt.sent L = pc.sent L := by
  cases pc <;> rfl

/-- It counts nothing. -/
@[simp]
theorem counted_interrupt (pc : MainPc) : pc.interrupt.counted L = pc.counted L := by
  cases pc <;> rfl

/-- It leaves the counter of the loop. -/
theorem Bounded.interrupt {pc : MainPc} (h : pc.Bounded L) : pc.interrupt.Bounded L := by
  cases pc with
  | waitChild interrupted => exact trivial
  | _ => exact h

end MainPc

/-! ## Both processes -/

/-- The parent hears only of what comes back, the child of its end only when everything else has
been sent, and `PScounter` is up to date. -/
structure Exchange (L : ℕ) (s : State) : Prop where
  parent : s.parent.Hears .child fun signum => signum.isSIG1
  child : s.child.Hears .parent fun signum => s.main.sending → signum.isSIG1
  parentAlive : s.parent.exited = false
  childAlive : s.main.sending → s.child.exited = false
  pScounter : s.parent.pScounter = s.main.counted L
  bounded : s.main.Bounded L

/-- So it is in the beginning. -/
theorem Exchange.start : Exchange L start := by
  constructor
  · exact .idle (fun _ => rfl) rfl
  · exact .idle (fun _ => rfl) rfl
  · exact rfl
  · intro _
    exact rfl
  · exact rfl
  · exact Nat.zero_le L

/-- `main` goes on. -/
theorem Exchange.goTo (h : Exchange L s) {pc : MainPc} (hsending : pc.sending → s.main.sending)
    (hcounted : pc.counted L = s.main.counted L) (hbounded : pc.Bounded L) :
    Exchange L { s with main := pc } := by
  constructor
  · exact h.parent
  · exact h.child.mono fun _ himp hpc => himp (hsending hpc)
  · exact h.parentAlive
  · intro hpc
    exact h.childAlive (hsending hpc)
  · rw [hcounted]
    exact h.pScounter
  · exact hbounded

/-- The child is replaced. -/
theorem Exchange.setChild (h : Exchange L s)
    (hp : p.Hears .parent fun signum => s.main.sending → signum.isSIG1)
    (hexited : s.main.sending → p.exited = false) : Exchange L { s with child := p } := by
  constructor
  · exact h.parent
  · exact hp
  · exact h.parentAlive
  · exact hexited
  · exact h.pScounter
  · exact h.bounded

/-- The parent is replaced. -/
theorem Exchange.setParent (h : Exchange L s) (hp : p.Hears .child fun signum => signum.isSIG1)
    (hexited : p.exited = false) (hcounter : p.pScounter = s.parent.pScounter) :
    Exchange L { s with parent := p } := by
  constructor
  · exact hp
  · exact h.child
  · exact hexited
  · exact h.childAlive
  · rw [hcounter]
    exact h.pScounter
  · exact h.bounded

/-- The number of `SIG1` that no process gets to handle any more. -/
def Event.lost : Event → ℕ
  | .sent refused | .echoed refused => if refused then 1 else 0
  | .exit unanswered => unanswered
  | .silent | .printed _ _ => 0

/-- What every step does: each `SIG1` sent is counted by the parent, under way or lost. -/
structure Keeps (L : ℕ) (s : State) (e : Event) (s' : State) : Prop where
  exchange : Exchange L s'
  balance : s.main.sent L + (s'.parent.pRcounter + s'.underWay + e.lost) =
    s'.main.sent L + (s.parent.pRcounter + s.underWay)

/-! ## The steps -/

/-- The program's two signals. -/
theorem signals_of_isSome (htype : (sig1 type).isSome) :
    ∃ x y, sig1 type = some x ∧ sig2 type = some y ∧ x.isSIG1 = true ∧ y.isSIG1 = false := by
  unfold sig1 at htype
  unfold sig1 sig2
  split
  · exact ⟨_, _, rfl, rfl, rfl, rfl⟩
  · split
    · exact ⟨_, _, rfl, rfl, rfl, rfl⟩
    · split
      · exact ⟨_, _, rfl, rfl, rfl, rfl⟩
      · simp_all

/-- A signal sent does not end a process. -/
@[simp]
theorem Process.post_exited (p : Process) (signum : Signum) (sender : Pid) :
    (p.post signum sender).exited = p.exited := by
  unfold Process.post
  split <;> rfl

/-- Nor does it count as sent by the process it goes to. -/
@[simp]
theorem Process.post_pScounter (p : Process) (signum : Signum) (sender : Pid) :
    (p.post signum sender).pScounter = p.pScounter := by
  unfold Process.post
  split <;> rfl

/-- Nor as received before it is handled. -/
@[simp]
theorem Process.post_pRcounter (p : Process) (signum : Signum) (sender : Pid) :
    (p.post signum sender).pRcounter = p.pRcounter := by
  unfold Process.post
  split <;> rfl

/-- `main` goes on to a point with as many signals sent. -/
theorem Exchange.keeps_goTo (h : Exchange L s) {pc : MainPc}
    (hsending : pc.sending → s.main.sending) (hcounted : pc.counted L = s.main.counted L)
    (hsent : pc.sent L = s.main.sent L) (hbounded : pc.Bounded L) :
    Keeps L s .silent { s with main := pc } := by
  constructor
  · exact h.goTo hsending hcounted hbounded
  · show _ = pc.sent L + _
    rw [hsent]
    rfl

/-- **A step of `main` keeps the accounts.** -/
theorem mainStep_keeps (htype : (sig1 type).isSome) (h : Exchange L s)
    (hstep : mainStep type L s = some (e, s')) : Keeps L s e s' := by
  have hbounded := h.bounded
  obtain ⟨main, parent, child⟩ := s
  cases main with
  | test i =>
    cases hstep
    by_cases hi : i < L
    · simp only [if_pos hi]
      exact h.keeps_goTo id rfl rfl hi
    · have heq : i = L := le_antisymm hbounded (not_lt.mp hi)
      simp only [if_neg hi]
      exact h.keeps_goTo id heq.symm heq.symm trivial
  | kill i =>
    obtain ⟨signum, -, hsig1, -, hkind, -⟩ := signals_of_isSome htype
    simp only [mainStep, hsig1, Option.some.injEq, Prod.mk.injEq] at hstep
    obtain ⟨rfl, rfl⟩ := hstep
    constructor
    · have hmoved : Exchange L ⟨.count i, parent, child⟩ := h.goTo id rfl hbounded
      apply hmoved.setChild
      · exact hmoved.child.post fun _ => hkind
      · rw [Process.post_exited]
        exact hmoved.childAlive
    · have hcount := Process.unanswered_post hkind child .parent
      simp only [MainPc.sent, State.underWay, Event.lost]
      omega
  | count i =>
    cases hstep
    constructor
    · constructor
      · exact ⟨h.parent.pending, h.parent.frames, h.parent.kill⟩
      · exact h.child
      · exact h.parentAlive
      · exact h.childAlive
      · exact congrArg (· + 1) h.pScounter
      · exact hbounded
    · rfl
  | sleep i =>
    cases hstep
    exact h.keeps_goTo id rfl rfl hbounded
  | killLast =>
    obtain ⟨-, signum, -, hsig2, -, hkind⟩ := signals_of_isSome htype
    simp only [mainStep, hsig2, Option.some.injEq, Prod.mk.injEq] at hstep
    obtain ⟨rfl, rfl⟩ := hstep
    constructor
    · have hmoved : Exchange L ⟨.callWait, parent, child⟩ :=
        h.goTo (fun hpc => by cases hpc) rfl trivial
      apply hmoved.setChild
      · exact hmoved.child.post fun hpc => by cases hpc
      · intro hpc
        cases hpc
    · simp [MainPc.sent, State.underWay, Process.unanswered_post_of_not hkind, Event.lost]
  | callWait =>
    cases hstep
    exact h.keeps_goTo id rfl rfl trivial
  | waitChild interrupted =>
    simp only [mainStep] at hstep
    split at hstep
    · cases hstep
      exact h.keeps_goTo id rfl rfl trivial
    · cases hstep
  | print =>
    cases hstep
    constructor
    · exact h.goTo id rfl trivial
    · rfl
  | printed => cases hstep

/-- The parent's runs of `handler` count. -/
theorem handlerStep_parent_keeps (h : Exchange L s)
    (hstep : handlerStep type .parent s = some (e, s')) : Keeps L s e s' := by
  obtain ⟨main, parent, child⟩ := s
  simp only [handlerStep, State.process] at hstep
  split at hstep
  · cases hstep
  · rename_i f frames hframes
    obtain ⟨hsiPid, hkind⟩ := h.parent.frames f (by simp [hframes])
    have hne : f.siPid ≠ .parent := by
      rw [hsiPid]
      exact Pid.noConfusion
    split at hstep
    · rename_i hpc
      rw [if_pos hkind, if_neg hne] at hstep
      cases hstep
      constructor
      · apply h.setParent
        · exact h.parent.moveTop hframes .leave (fun heq => by cases heq) rfl rfl
        · exact h.parentAlive
        · exact rfl
      · have hcount : Process.unanswered { parent with
            pRcounter := parent.pRcounter + 1, frames := { f with pc := .leave } :: frames } + 1 =
            parent.unanswered :=
          Process.unanswered_answer hframes (by simp [hpc]) hkind rfl rfl
        simp only [State.setProcess, State.underWay, Event.lost]
        omega
    · -- a signal from the child is not sent back
      rename_i hpc
      exact absurd (h.parent.kill f (by simp [hframes]) hpc).1 hne
    · rename_i hpc
      cases hstep
      constructor
      · apply h.setParent
        · exact h.parent.popTop hframes
        · exact h.parentAlive
        · exact rfl
      · simp only [State.setProcess, State.underWay, Event.lost,
          Process.unanswered_popTop hframes hpc]
        rfl

/-- The child's runs of `handler` send back, or end the child. -/
theorem handlerStep_child_keeps (h : Exchange L s)
    (hstep : handlerStep type .child s = some (e, s')) : Keeps L s e s' := by
  obtain ⟨main, parent, child⟩ := s
  simp only [handlerStep, State.process] at hstep
  split at hstep
  · cases hstep
  · rename_i f frames hframes
    obtain ⟨hsiPid, hsending⟩ := h.child.frames f (by simp [hframes])
    split at hstep
    · rename_i hpc
      split at hstep
      · rename_i hkind
        cases hstep
        constructor
        · apply h.setChild
          · exact h.child.moveTop hframes .kill (fun _ => ⟨hsiPid, hkind⟩) rfl rfl
          · exact h.childAlive
        · have hcount : Process.unanswered { child with
              cRcounter := child.cRcounter + 1, frames := { f with pc := .kill } :: frames } =
              child.unanswered :=
            Process.unanswered_moveTop hframes (by simp [hpc]) (by simp) rfl rfl
          simp only [State.setProcess, State.underWay, Event.lost, hcount]
          rfl
      · -- a `SIG2`: what is unanswered is lost
        rename_i hkind
        cases hstep
        constructor
        · apply h.setChild
          · exact .idle (fun _ => rfl) rfl
          · intro hmain
            exact absurd (hsending hmain) hkind
        · have hexit : child.exit.unanswered = 0 := rfl
          simp only [State.setProcess, State.underWay, Event.lost, hexit]
          omega
    · -- one `SIG1` less for the child, and one more for the parent unless it is refused
      rename_i hpc
      obtain ⟨-, hkind⟩ := h.child.kill f (by simp [hframes]) hpc
      have hreply : (if type = 3 then Signum.sigrtmin else .sigusr1).isSIG1 := by
        split <;> rfl
      generalize (if type = 3 then Signum.sigrtmin else .sigusr1) = signum at hstep hreply
      simp only [State.setProcess] at hstep
      have hcount : Process.unanswered { child with frames := { f with pc := .leave } :: frames }
          + 1 = child.unanswered :=
        Process.unanswered_answer hframes (by simp [hpc]) hkind rfl rfl
      cases hstep
      constructor
      · have hchild : Exchange L
            ⟨main, parent, { child with frames := { f with pc := .leave } :: frames }⟩ := by
          apply h.setChild
          · exact h.child.moveTop hframes .leave (fun heq => by cases heq) rfl rfl
          · exact h.childAlive
        apply hchild.setParent
        · exact hchild.parent.post hreply
        · rw [Process.post_exited]
          exact hchild.parentAlive
        · exact Process.post_pScounter _ _ _
      · have hpost := Process.unanswered_post hreply parent .child
        simp only [State.underWay, Event.lost, Process.post_pRcounter]
        omega
    · rename_i hpc
      cases hstep
      constructor
      · apply h.setChild
        · exact h.child.popTop hframes
        · exact h.childAlive
      · simp only [State.setProcess, State.underWay, Event.lost,
          Process.unanswered_popTop hframes hpc]
        rfl

/-- **A call of `handler`**: the first of the pending signals is taken, and a run begins. -/
theorem deliver_cases (hstep : deliver pid signum s = some (e, s')) :
    ∃ sender senders, (s.process pid).pending signum = sender :: senders ∧ e = .silent ∧
      s' = (s.setProcess pid ((s.process pid).call signum sender senders)).interrupt pid := by
  simp only [deliver] at hstep
  split at hstep
  · cases hstep
  · rename_i sender senders hpending
    split at hstep
    · cases hstep
    · cases hstep
      exact ⟨sender, senders, hpending, rfl, rfl⟩

/-- **A call of the handler keeps the accounts.** -/
theorem deliver_keeps (h : Exchange L s) (hstep : deliver pid signum s = some (e, s')) :
    Keeps L s e s' := by
  obtain ⟨sender, senders, hpending, rfl, rfl⟩ := deliver_cases hstep
  have hcount := Process.unanswered_call hpending
  cases pid with
  | parent =>
    constructor
    · have hcalled : Exchange L { s with parent := s.parent.call signum sender senders } := by
        apply h.setParent
        · exact h.parent.call hpending
        · exact h.parentAlive
        · exact rfl
      apply hcalled.goTo
      · simp [State.setProcess]
      · simp [State.setProcess]
      · exact h.bounded.interrupt
    · simp only [State.process, State.setProcess, State.interrupt, State.underWay, Event.lost,
        MainPc.sent_interrupt] at hcount ⊢
      rw [hcount]
      rfl
  | child =>
    constructor
    · apply h.setChild
      · exact h.child.call hpending
      · exact h.childAlive
    · simp only [State.process, State.setProcess, State.interrupt, State.underWay,
        Event.lost] at hcount ⊢
      rw [hcount]
      rfl

/-- **A step keeps the balance**. -/
theorem next_keeps (htype : (sig1 type).isSome) (h : Exchange L s) {c : Choice}
    (hstep : next type L s c = some (e, s')) : Keeps L s e s' := by
  cases c with
  | main =>
    simp only [next] at hstep
    split at hstep
    · exact mainStep_keeps htype h hstep
    · cases hstep
  | handler pid =>
    cases pid with
    | parent => exact handlerStep_parent_keeps h hstep
    | child => exact handlerStep_child_keeps h hstep
  | deliver pid signum => exact deliver_keeps h hstep

end SystemyOperacyjne.SignalEcho
