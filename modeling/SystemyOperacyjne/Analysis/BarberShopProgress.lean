import SystemyOperacyjne.Analysis.BarberShopSimulation

/-!
# A barber shop can come to rest

From any state of either program the visits under way can be finished with no client starting
a new one (`flush`). At rest (`Quiet`) the barber stands before the next thing that can be seen
of it and every client is outside. From a state in which nothing that can be seen is under way
rest is reached without a move of the shop (`calm_flush`).
-/

set_option autoImplicit false

namespace SystemyOperacyjne.BarberShop

open Library Semaphore

/-! ## Steps to rest -/

/-- The barber stands before a cut or before the inner loop. -/
def BarberPc.Parked : BarberPc → Prop
  | .cutChair _ | .waitFifo | .cut _ => True
  | .waitBarber | .postBarber | .postSlower | .waitFifoChair | .readChair | .postFifoChair _
  | .pop _ | .postFifo _ | .sleep | .postFifoSleep => False

/-- A bound on the steps the barber takes before it is parked or waits to be woken. -/
def BarberPc.rank : BarberPc → ℕ
  | .cutChair _ | .waitFifo | .cut _ => 0
  | .postFifoChair _ | .postFifo _ => 1
  | .readChair => 2
  | .waitFifoChair => 3
  | .postSlower => 4
  | .postBarber => 5
  | .waitBarber => 6
  | .postFifoSleep => 7
  | .sleep => 8
  | .pop p => 8 + p.rank

/-- A bound on the steps a client takes to finish its visit and its pending cut. -/
def Client.rank (c : Client) : ℕ :=
  c.pending + match c.pc with
    | .test | .waitCheck | .suspend | .left => 0
    | .postCheck _ => 1
    | .postFifo _ => 2
    | .writeChair => 3
    | .handshake => 4
    | .postBarber => 5
    | .push p => 2 + p.rank
    | .getValue => 14
    | .waitFifo => 15

section Steps

variable {v : Version} {m m' : Shared} {b b' : BarberPc} {e : Option Event} {S : ℕ} {pid : ℤ}
  {c c' : Client}

/-- The barber comes closer to its parking. -/
theorem barber_rank (h : startWork v m b = some (m', b', e)) (hb : ¬ b.Parked) :
    b'.rank < b.rank := by
  cases b <;> simp only [startWork] at h
  case waitBarber | waitFifoChair | sleep =>
    obtain ⟨x, -, h⟩ := Option.map_eq_some_iff.mp h
    cases h
    cases v <;> simp [BarberPc.rank]
  case cutChair | waitFifo | cut => exact absurd trivial hb
  case pop p =>
    have hrank := pop.step_rank m.fifo p
    split at h
    · rename_i f p' hpop
      cases h
      have := hrank f p' hpop
      simp only [BarberPc.rank]
      exact Nat.add_lt_add_left this 8
    · cases h
      have hpos : 0 < p.rank := by cases p <;> simp [PopPc.rank]
      split <;> simp only [BarberPc.rank] <;> omega
  all_goals
    cases h
    simp [BarberPc.rank]

/-- A client that has begun a visit, or has been cut, comes closer to the end of it. -/
theorem client_rank (h : getCut v S pid m c = some (m', c', e)) (htest : c.pc ≠ .test)
    (hwait : c.pc ≠ .waitCheck) : c'.rank < c.rank := by
  cases hpc : c.pc <;> simp only [getCut, hpc, reduceCtorEq] at h
  case test => exact absurd hpc htest
  case waitCheck => exact absurd hpc hwait
  case push p =>
    have hrank := (push pid).step_rank m.fifo p
    have hpos : 0 < p.rank := by cases p <;> simp [PushPc.rank]
    split at h
    · rename_i f p' hpush
      cases h
      have : p'.rank < p.rank := hrank f p' hpush
      simp only [Client.rank, hpc]
      omega
    · split at h <;> cases h <;> simp only [Client.rank, hpc] <;> omega
  case handshake =>
    cases v <;> simp only at h
    · cases h
      simp [Client.rank, hpc]
    · obtain ⟨x, -, h⟩ := Option.map_eq_some_iff.mp h
      cases h
      simp [Client.rank, hpc]
  case waitFifo =>
    obtain ⟨x, -, h⟩ := Option.map_eq_some_iff.mp h
    cases h
    simp [Client.rank, hpc]
  case suspend =>
    obtain ⟨hpending, h⟩ := Option.ite_none_left_eq_some.mp h
    cases h
    simp only [Client.rank, hpc]
    omega
  case getValue | postCheck =>
    split at h <;> cases h <;> simp [Client.rank, hpc, PushPc.rank]
  all_goals
    cases h
    simp [Client.rank, hpc]

/-- The barber is stopped only by a semaphore it waits for. -/
theorem startWork_enabled (v : Version) (m : Shared) (b : BarberPc)
    (hbarber : b = .waitBarber ∨ b = .sleep → 0 < m.semBarber)
    (hfifo : b = .waitFifoChair ∨ b = .waitFifo → 0 < m.semFifo) :
    ∃ m' b' e, startWork v m b = some (m', b', e) := by
  cases b <;> simp only [startWork]
  case waitBarber =>
    have := wait_of_pos (hbarber (.inl rfl))
    simp [this]
  case sleep =>
    have := wait_of_pos (hbarber (.inr rfl))
    simp [this]
  case waitFifoChair =>
    have := wait_of_pos (hfifo (.inl rfl))
    simp [this]
  case waitFifo =>
    have := wait_of_pos (hfifo (.inr rfl))
    simp [this]
  case pop p => split <;> simp
  all_goals simp

/-- A client is stopped only by a semaphore it waits for, by `sigsuspend`, and by having
left. -/
theorem getCut_enabled (v : Version) (S : ℕ) (pid : ℤ) (m : Shared) (c : Client)
    (hcheck : c.pc = .waitCheck → 0 < m.semCheck) (hfifo : c.pc = .waitFifo → 0 < m.semFifo)
    (hslower : c.pc = .handshake → v = .posix → 0 < m.semSlower)
    (hpending : c.pc = .suspend → 0 < c.pending) (hleft : c.pc ≠ .left) :
    ∃ m' c' e, getCut v S pid m c = some (m', c', e) := by
  cases hpc : c.pc <;> simp only [getCut, hpc]
  case waitCheck =>
    have := wait_of_pos (hcheck hpc)
    simp [this]
  case waitFifo =>
    have := wait_of_pos (hfifo hpc)
    simp [this]
  case handshake =>
    cases v
    · simp
    · have := wait_of_pos (hslower hpc rfl)
      simp [this]
  case push p =>
    split
    · simp
    · split <;> simp
  case suspend =>
    have := hpending hpc
    rw [if_neg (by omega)]
    simp
  case left => exact absurd hpc hleft
  all_goals simp

end Steps

/-! ## Somebody can step -/

/-- A barber in the waiting room is not parked. -/
theorem BarberPc.not_parked_of_holdsFifo {b : BarberPc} (h : b.holdsFifo = 1) : ¬ b.Parked := by
  cases b <;> simp [BarberPc.holdsFifo, BarberPc.Parked] at h ⊢

/-- Nor is one that is not busy. -/
theorem BarberPc.not_parked_of_stage {b : BarberPc} (h : b.stage ≠ .busy) : ¬ b.Parked := by
  cases b <;> simp [BarberPc.stage, BarberPc.Parked] at h ⊢

variable {ι : Type} [Fintype ι] [DecidableEq ι] {v : Version} {K : Setting ι} {s : State ι}
  {t t' : Spec ι}

/-- The barber is stopped only at home, with nobody to wake it, and by a client that holds
`FIFO`. -/
theorem Rel.barber_enabled (h : Rel v K s t) (hhome : s.barber = .waitBarber → 0 < s.mem.semBarber)
    (hfifo : s.barber = .waitFifoChair ∨ s.barber = .waitFifo →
      ∀ c, (s.client c).pc.phase.holdsFifo = 0) :
    ∃ m b e, startWork v s.mem s.barber = some (m, b, e) := by
  refine startWork_enabled v s.mem s.barber ?_ fun hb => ?_
  · rintro (hb | hb)
    · exact hhome hb
    · have halarm := h.alarm
      rw [hb] at halarm
      exact halarm.busy_pos
  · have hzero : fifoHolders s.n = 0 := by
      rw [fifoHolders_eq]
      exact census_eq_zero (hfifo hb)
    have hheld : s.barber.holdsFifo = 0 := by rcases hb with hb | hb <;> rw [hb] <;> rfl
    have := h.locks.fifo
    omega

/-- **A client inside can step**, unless it waits for the barber, who can. -/
theorem Rel.visitor_enabled (h : Rel v K s t) {c : ι} (hc : (s.client c).pc.phase ≠ .outside) :
    (∃ m cl e, getCut v (K.cutsNumber c) (K.pid c) s.mem (s.client c) = some (m, cl, e)) ∨
    (∃ m b e, startWork v s.mem s.barber = some (m, b, e)) ∧
      (s.barber.holdsFifo = 1 ∨ s.barber.stage = .home ∨ s.barber.stage = .raising ∨
        s.barber.stage = .slowing) := by
  have hcheck : (s.client c).pc.phase.holdsCheck = 1 := by
    revert hc
    cases (s.client c).pc.phase <;> simp [CPhase.holdsCheck]
  -- nobody else holds `FIFO`, so the barber does if it is taken
  have hwaitFifo : (s.client c).pc = .waitFifo → s.mem.semFifo = 0 → s.barber.holdsFifo = 1 := by
    intro hpc hzero
    have hnone : fifoHolders s.n = 0 := by
      rw [fifoHolders_eq]
      apply census_eq_zero
      intro c'
      by_cases hc' : c' = c
      · rw [hc', hpc]
        rfl
      · have hne : (s.client c').pc.phase.holdsCheck ≠ 1 := fun hone =>
          hc' (h.locks.check_alone hone hcheck)
        revert hne
        cases (s.client c').pc.phase <;> simp [CPhase.holdsCheck, CPhase.holdsFifo]
    have := h.locks.fifo
    omega
  by_cases hfifo : (s.client c).pc = .waitFifo ∧ s.mem.semFifo = 0
  · have hheld := hwaitFifo hfifo.1 hfifo.2
    refine .inr ⟨h.barber_enabled ?_ ?_, .inl hheld⟩
    · intro hb
      rw [hb] at hheld
      cases hheld
    · rintro (hb | hb) <;>
        · rw [hb] at hheld
          cases hheld
  by_cases hslower : (s.client c).pc = .handshake ∧ v = .posix ∧ s.mem.semSlower = 0
  · obtain ⟨hpc, rfl, hzero⟩ := hslower
    have hshaking : 0 < s.n .shaking := by
      have := count_pos (fun c => (s.client c).pc.phase) c
      rwa [hpc] at this
    right
    rcases h.alarm.shaking hshaking with hpos | ⟨hst, hpos⟩ | hst | hst
    · omega
    · refine ⟨h.barber_enabled (fun _ => hpos) ?_, .inr (.inl hst)⟩
      rintro (hb | hb) <;>
        · rw [hb] at hst
          cases hst
    · refine ⟨h.barber_enabled ?_ ?_, .inr (.inr (.inl hst))⟩
      · intro hb
        rw [hb] at hst
        cases hst
      · rintro (hb | hb) <;>
          · rw [hb] at hst
            cases hst
    · refine ⟨h.barber_enabled ?_ ?_, .inr (.inr (.inr hst))⟩
      · intro hb
        rw [hb] at hst
        cases hst
      · rintro (hb | hb) <;>
          · rw [hb] at hst
            cases hst
  · refine .inl (getCut_enabled v _ _ s.mem (s.client c) ?_ ?_ ?_ ?_ ?_)
    · intro hpc
      exact absurd (by rw [hpc]; rfl) hc
    · intro hpc
      by_contra hzero
      exact hfifo ⟨hpc, by omega⟩
    · intro hpc hv
      by_contra hzero
      exact hslower ⟨hpc, hv, by omega⟩
    · intro hpc
      exact absurd (by rw [hpc]; rfl) hc
    · intro hpc
      exact absurd (by rw [hpc]; rfl) hc

/-! ## Rest -/

/-- **Rest**: every client is outside, no signal is pending, and the barber is parked or waits
to be woken. -/
structure Quiet (s : State ι) : Prop where
  outside : ∀ c, (s.client c).pc.phase = .outside
  pending : ∀ c, (s.client c).pending = 0
  barber : s.barber.Parked ∨ s.barber = .waitBarber ∧ s.mem.semBarber = 0

omit [Fintype ι] in
/-- A client's step outside leaves the shop at rest. -/
theorem Quiet.setClient (hq : Quiet s) {c : ι} {cl : Client} (hout : cl.pc.phase = .outside)
    (hpending : cl.pending = 0) : Quiet (s.setClient c s.mem cl) where
  outside := State.forall_setClient (P := fun _ cl => cl.pc.phase = .outside) hout hq.outside
  pending := State.forall_setClient (P := fun _ cl => cl.pending = 0) hpending hq.pending
  barber := hq.barber

/-- The steps ahead before the shop is at rest. -/
def State.rank (s : State ι) : ℕ :=
  s.barber.rank + census Client.rank s.client

omit [DecidableEq ι] in
/-- A step of the barber before it is parked, while nobody is cut, brings the shop closer to
rest. -/
theorem rank_barber {m : Shared} {b : BarberPc} {e : Option Event}
    (h : startWork v s.mem s.barber = some (m, b, e)) (hb : ¬ s.barber.Parked) :
    (s.setBarber K.pid m b e).rank < s.rank := by
  have hlt := barber_rank h hb
  have hcut : ∀ c, deliver K.pid e c (s.client c) = s.client c := fun c => by
    unfold deliver
    rw [if_neg]
    rintro rfl
    cases hb₀ : s.barber <;> rw [hb₀] at h hb <;> simp only [startWork] at h
    case cutChair | cut => exact hb trivial
    case pop p => split at h <;> cases h
    case waitBarber | waitFifoChair | waitFifo | sleep =>
      obtain ⟨x, -, h⟩ := Option.map_eq_some_iff.mp h
      cases h
    all_goals cases h
  simp only [State.rank, State.setBarber, funext hcut]
  omega

/-- A step of a client that does not begin a visit brings the shop closer to rest. -/
theorem rank_client {c : ι} {m : Shared} {cl : Client} {e : Option Event}
    (h : getCut v (K.cutsNumber c) (K.pid c) s.mem (s.client c) = some (m, cl, e))
    (htest : (s.client c).pc ≠ .test) (hwait : (s.client c).pc ≠ .waitCheck) :
    (s.setClient c m cl).rank < s.rank := by
  have hlt := client_rank h htest hwait
  have hsum := census_update Client.rank s.client c cl
  simp only [State.rank, State.setClient]
  omega

/-- A client with a pending signal, outside, is in `sigsuspend`. -/
theorem Rel.suspended (h : Rel v K s t) {c : ι} (hc : (s.client c).pc.phase = .outside)
    (hpending : (s.client c).pending ≠ 0) : (s.client c).pc = .suspend := by
  have hseat := (h.client c).seat
  revert hc hseat
  cases (s.client c).pc <;> simp [ClientPc.phase, ClientPc.seated] <;> omega

/-- **Somebody can go on towards rest.** -/
theorem exists_flush (h : Rel v K s t) (hne : ¬ Quiet s) :
    (∃ m b e, startWork v s.mem s.barber = some (m, b, e) ∧ ¬ s.barber.Parked) ∨
    ∃ c m cl e, getCut v (K.cutsNumber c) (K.pid c) s.mem (s.client c) = some (m, cl, e) ∧
      (s.client c).pc ≠ .test ∧ (s.client c).pc ≠ .waitCheck := by
  by_cases hout : ∀ c, (s.client c).pc.phase = .outside
  · by_cases hpending : ∀ c, (s.client c).pending = 0
    · -- the barber alone is not where it should be
      have hparked : ¬ s.barber.Parked := fun hp => hne ⟨hout, hpending, .inl hp⟩
      left
      obtain ⟨m, b, e, hstep⟩ := h.barber_enabled
        (fun hb => by
          by_contra hzero
          exact hne ⟨hout, hpending, .inr ⟨hb, by omega⟩⟩)
        (fun _ c => by rw [hout c]; rfl)
      exact ⟨m, b, e, hstep, hparked⟩
    · push Not at hpending
      obtain ⟨c, hc⟩ := hpending
      have hpc := h.suspended (hout c) hc
      obtain ⟨m, cl, e, hstep⟩ := getCut_enabled v (K.cutsNumber c) (K.pid c) s.mem (s.client c)
        (by simp [hpc]) (by simp [hpc]) (by simp [hpc]) (fun _ => by omega) (by simp [hpc])
      exact .inr ⟨c, m, cl, e, hstep, by simp [hpc], by simp [hpc]⟩
  · push Not at hout
    obtain ⟨c, hc⟩ := hout
    rcases h.visitor_enabled hc with ⟨m, cl, e, hstep⟩ | ⟨⟨m, b, e, hstep⟩, hst⟩
    · refine .inr ⟨c, m, cl, e, hstep, ?_, ?_⟩ <;>
        · intro hpc
          exact hc (by rw [hpc]; rfl)
    · refine .inl ⟨m, b, e, hstep, ?_⟩
      rcases hst with hheld | hst | hst | hst
      · exact BarberPc.not_parked_of_holdsFifo hheld
      all_goals exact BarberPc.not_parked_of_stage (by simp [hst])

/-- The state of the shop after a step of the program. -/
theorem Rel.step {e : Option Event} {s' : State ι} (h : Rel v K s t)
    (hstep : (program v K).system.step s e s') : ∃ t', Rel v K s' t' := by
  rcases rel_step h hstep with ⟨-, hrel⟩ | ⟨t', -, -, -, hrel⟩ | ⟨ev, t', a, -, -, -, hrel⟩
  · exact ⟨t, hrel⟩
  · exact ⟨t', hrel⟩
  · exact ⟨t', hrel⟩

/-- **From every state the program can come to rest.** -/
theorem flush (h : Rel v K s t) :
    ∃ l s' t', (program v K).system.Run s l s' ∧ Quiet s' ∧ Rel v K s' t' := by
  have progress : ∀ s, (∃ t, Rel v K s t) → ¬ Quiet s → ∃ e s',
      (program v K).system.step s e s' ∧ True ∧ (∃ t, Rel v K s' t) ∧ s'.rank < s.rank := by
    rintro s ⟨t, h⟩ hne
    rcases exists_flush h hne with ⟨m, b, e, hstep, hb⟩ | ⟨c, m, cl, e, hstep, htest, hwait⟩
    · exact ⟨_, _, step_barber hstep, trivial, h.step (step_barber hstep), rank_barber hstep hb⟩
    · exact ⟨_, _, step_client hstep, trivial, h.step (step_client hstep),
        rank_client hstep htest hwait⟩
  obtain ⟨l, s', hrun, -, hquiet, t', hrel⟩ := System.drain _ State.rank progress ⟨t, h⟩
  exact ⟨l, s', t', hrun, hquiet, hrel⟩

/-! ## Rest with nothing to be seen -/

/-- **Calm**: nobody is about to find out whether there is a place, and the barber is not
looking at the queue. -/
structure Calm (s : State ι) : Prop where
  client : ∀ c, (s.client c).pc.phase = .outside ∨ (s.client c).pc.phase = .done ∨
    (s.client c).pc.phase = .leaving
  barber : (∀ p, s.barber ≠ .pop p) ∧ s.barber ≠ .sleep

/-- On the way to rest a calm barber shows nothing and stays calm. -/
theorem calm_barber {m m' : Shared} {b b' : BarberPc} {e : Option Event}
    (h : startWork v m b = some (m', b', e)) (hb : ¬ b.Parked) (hpop : ∀ p, b ≠ .pop p)
    (hsleep : b ≠ .sleep) : e = none ∧ (∀ p, b' ≠ .pop p) ∧ b' ≠ .sleep := by
  cases b <;> simp only [startWork] at h
  case pop p => exact absurd rfl (hpop p)
  case sleep => exact absurd rfl hsleep
  case cutChair | waitFifo | cut => exact absurd trivial hb
  case waitBarber | waitFifoChair =>
    obtain ⟨x, -, h⟩ := Option.map_eq_some_iff.mp h
    cases h
    cases v <;> simp
  all_goals
    cases h
    simp

/-- A client that knows whether it has a place shows nothing more of this visit. -/
theorem calm_client {m m' : Shared} {c c' : Client} {e : Option Event} {S : ℕ} {pid : ℤ}
    (h : getCut v S pid m c = some (m', c', e)) (htest : c.pc ≠ .test) (hwait : c.pc ≠ .waitCheck)
    (hc : c.pc.phase = .outside ∨ c.pc.phase = .done ∨ c.pc.phase = .leaving) :
    e = none ∧ (c'.pc.phase = .outside ∨ c'.pc.phase = .done ∨ c'.pc.phase = .leaving) := by
  cases hpc : c.pc <;> simp only [getCut, hpc, reduceCtorEq] at h <;>
    simp only [hpc, ClientPc.phase, reduceCtorEq, or_false, false_or] at hc
  case test => exact absurd hpc htest
  case waitCheck => exact absurd hpc hwait
  case suspend =>
    obtain ⟨-, h⟩ := Option.ite_none_left_eq_some.mp h
    cases h
    simp [ClientPc.phase]
  case postCheck => split at h <;> cases h <;> simp [ClientPc.phase]
  case postFifo =>
    cases h
    simp [ClientPc.phase]

/-- **From a calm state the program comes to rest without a move of the shop.** -/
theorem calm_flush (h : Rel v K s t) (hcalm : Calm s) :
    ∃ l s', (program v K).system.Run s l s' ∧ l.filterMap id = [] ∧ Quiet s' ∧ Rel v K s' t := by
  have progress : ∀ s, Rel v K s t ∧ Calm s → ¬ Quiet s → ∃ e s',
      (program v K).system.step s e s' ∧ e = none ∧ (Rel v K s' t ∧ Calm s') ∧
        s'.rank < s.rank := by
    rintro s ⟨h, hclient, hpop, hsleep⟩ hne
    rcases exists_flush h hne with ⟨m, b, e, hstep, hb⟩ | ⟨c, m, cl, e, hstep, htest, hwait⟩
    · obtain ⟨rfl, hpop', hsleep'⟩ := calm_barber hstep hb hpop hsleep
      exact ⟨_, _, step_barber hstep, rfl,
        ⟨rel_barber_silent h hstep hpop, hclient, hpop', hsleep'⟩, rank_barber hstep hb⟩
    · obtain ⟨rfl, hcl⟩ := calm_client hstep htest hwait (hclient c)
      have hclient' := State.forall_setClient (c := c) (m := m)
        (P := fun _ cl => cl.pc.phase = .outside ∨ cl.pc.phase = .done ∨ cl.pc.phase = .leaving)
        hcl hclient
      exact ⟨_, _, step_client hstep, rfl, ⟨rel_client_silent h hstep, hclient', hpop, hsleep⟩,
        rank_client hstep htest hwait⟩
  obtain ⟨l, s', hrun, hl, hquiet, hrel, -⟩ := System.drain _ State.rank progress ⟨h, hcalm⟩
  exact ⟨l, s', hrun, List.filterMap_eq_nil_iff.mpr hl, hquiet, hrel⟩

end SystemyOperacyjne.BarberShop
