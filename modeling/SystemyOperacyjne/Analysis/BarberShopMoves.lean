import SystemyOperacyjne.Analysis.BarberShopProgress

/-!
# Every move of the shop can be made

From rest, every move of the shop is made by a run of either program that shows the move and
nothing else, and comes to rest again (`make_move`). The state of the shop and rest together
are therefore a simulation the other way round (`realization`).
-/

set_option autoImplicit false

namespace SystemyOperacyjne.BarberShop

open Library Semaphore

variable {ι : Type} [Fintype ι] [DecidableEq ι] {v : Version} {K : Setting ι} {s : State ι}
  {t t' : Spec ι}

/-! ## A visit -/

/-- A client that has not found out whether there is a place does so by its next event. -/
theorem visiting_step {m m' : Shared} {c c' : Client} {S : ℕ} {pid : ℤ}
    (h : getCut v S pid m c = some (m', c', none)) (hvis : c.pc.Visiting)
    (hwait : c.pc ≠ .waitCheck) : c'.pc.Visiting ∧ c'.pc ≠ .waitCheck := by
  cases hpc : c.pc <;> simp only [getCut, hpc, reduceCtorEq] at h <;>
    simp only [hpc, ClientPc.Visiting] at hvis
  case waitCheck => exact absurd hpc hwait
  case waitFifo =>
    obtain ⟨x, -, h⟩ := Option.map_eq_some_iff.mp h
    cases h
    simp [ClientPc.Visiting]
  case getValue => split at h <;> cases h <;> simp [ClientPc.Visiting]
  case handshake =>
    cases v <;> simp only at h
    · cases h
      simp [ClientPc.Visiting]
    · obtain ⟨x, -, h⟩ := Option.map_eq_some_iff.mp h
      cases h
      simp [ClientPc.Visiting]
  case push p =>
    split at h
    · cases h
      simp [ClientPc.Visiting]
    · split at h <;> cases h
  case writeChair => cases h
  case postBarber =>
    cases h
    simp [ClientPc.Visiting]

/-- A barber on its way to the chair shows nothing and stays out of `FIFO`. -/
theorem coming_step {m m' : Shared} {b b' : BarberPc} {e : Option Event}
    (h : startWork v m b = some (m', b', e))
    (hst : b.stage = .home ∨ b.stage = .raising ∨ b.stage = .slowing) :
    e = none ∧ (∀ p, b ≠ .pop p) ∧ b'.holdsFifo = 0 := by
  cases b <;> simp only [startWork] at h <;> simp [BarberPc.stage] at hst
  case waitBarber =>
    obtain ⟨x, -, h⟩ := Option.map_eq_some_iff.mp h
    cases h
    cases v <;> simp [BarberPc.holdsFifo]
  all_goals
    cases h
    simp [BarberPc.holdsFifo]

/-- The one visitor inside, with the barber out of its way. -/
structure Visit (c : ι) (s : State ι) : Prop where
  visiting : (s.client c).pc.Visiting
  inside : (s.client c).pc ≠ .waitCheck
  barber : s.barber.holdsFifo = 0

/-- **A visitor comes to its event** with nothing else to be seen. -/
theorem visit_run {c : ι} (h : Rel v K s t) (hvisit : Visit c s) :
    ∃ l s' m cl ev, (program v K).system.Run s l s' ∧ l.filterMap id = [] ∧ Rel v K s' t ∧
      Visit c s' ∧
      getCut v (K.cutsNumber c) (K.pid c) s'.mem (s'.client c) = some (m, cl, some ev) := by
  let goal := fun s : State ι => ∃ m cl ev,
    getCut v (K.cutsNumber c) (K.pid c) s.mem (s.client c) = some (m, cl, some ev)
  have progress : ∀ s, Rel v K s t ∧ Visit c s → ¬ goal s → ∃ e s',
      (program v K).system.step s e s' ∧ e = none ∧ (Rel v K s' t ∧ Visit c s') ∧
        s'.rank < s.rank := by
    rintro s ⟨h, hvisiting, hinside, hbarber⟩ hne
    have hphase : (s.client c).pc.phase ≠ .outside := by
      revert hvisiting hinside
      cases (s.client c).pc <;> simp [ClientPc.Visiting, ClientPc.phase]
    have htest : (s.client c).pc ≠ .test := fun hpc => by
      rw [hpc] at hvisiting
      exact hvisiting
    rcases h.visitor_enabled hphase with ⟨m, cl, e, hstep⟩ | ⟨⟨m, b, e, hstep⟩, hst⟩
    · cases e with
      | some ev => exact absurd ⟨m, cl, ev, hstep⟩ hne
      | none =>
        obtain ⟨hvisiting', hinside'⟩ := visiting_step hstep hvisiting hinside
        refine ⟨_, _, step_client hstep, rfl, ⟨rel_client_silent h hstep, ?_, ?_, hbarber⟩,
          rank_client hstep htest hinside⟩
        · simpa [State.setClient] using hvisiting'
        · simpa [State.setClient] using hinside'
    · have hst' := hst.resolve_left (by omega)
      obtain ⟨rfl, hpop, hheld⟩ := coming_step hstep hst'
      refine ⟨_, _, step_barber hstep, rfl,
        ⟨rel_barber_silent h hstep hpop, hvisiting, hinside, hheld⟩, rank_barber hstep ?_⟩
      apply BarberPc.not_parked_of_stage
      rcases hst' with hst | hst | hst <;> simp [hst]
  obtain ⟨l, s', hrun, hl, ⟨m, cl, ev, hstep⟩, hrel, hvisit'⟩ :=
    System.drain _ State.rank progress ⟨h, hvisit⟩
  exact ⟨l, s', m, cl, ev, hrun, List.filterMap_eq_nil_iff.mpr hl, hrel, hvisit', hstep⟩

/-- After the event of the one visitor the shop is calm. -/
theorem calm_after_event {c : ι} {m : Shared} {cl : Client} {ev : Event} (h : Rel v K s t)
    (hvisit : Visit c s)
    (hstep : getCut v (K.cutsNumber c) (K.pid c) s.mem (s.client c) = some (m, cl, some ev)) :
    Calm (s.setClient c m cl) := by
  have hcheck : (s.client c).pc.phase.holdsCheck = 1 := by
    have := hvisit.visiting
    have := hvisit.inside
    revert this ‹(s.client c).pc.Visiting›
    cases (s.client c).pc <;> simp [ClientPc.Visiting, ClientPc.phase, CPhase.holdsCheck]
  have hdone : cl.pc.phase = .done := by
    rcases getCut_event hstep with ⟨-, -, -, rfl⟩ | ⟨p, f, res, -, -, -, hres⟩
    · rfl
    · rcases hres with ⟨-, -, rfl⟩ | ⟨-, -, rfl⟩ <;> rfl
  refine ⟨?_, ?_, ?_⟩
  · intro c'
    by_cases hc : c' = c
    · subst hc
      right
      left
      rw [State.setClient_self]
      exact hdone
    · left
      rw [State.setClient_of_ne hc]
      have hne : (s.client c').pc.phase.holdsCheck ≠ 1 := fun hone =>
        hc (h.locks.check_alone hone hcheck)
      revert hne
      cases (s.client c').pc.phase <;> simp [CPhase.holdsCheck]
  · intro p hp
    have := hvisit.barber
    rw [show s.barber = .pop p from hp] at this
    cases this
  · intro hp
    have := hvisit.barber
    rw [show s.barber = .sleep from hp] at this
    cases this

/-- At rest, a client that wants a cut stands before its next visit. -/
theorem Quiet.wanting (hq : Quiet s) (h : Rel v K s t) {c : ι} (hwants : t.Wants K c) :
    (s.client c).pc = .test ∨ (s.client c).pc = .waitCheck := by
  have hseat := (h.client c).seat
  have hleft := (h.client c).left
  have hcuts := (h.client c).cuts
  have hout := hq.outside c
  rw [hq.pending c, List.count_eq_zero.mpr hwants.1] at hseat
  rw [hq.pending c] at hcuts
  have hlt := hwants.2
  cases hpc : (s.client c).pc <;> rw [hpc] at hseat hout <;>
    simp [ClientPc.phase, ClientPc.seated] at hseat hout ⊢
  exact absurd (hleft hpc) (by omega)

omit [Fintype ι] [DecidableEq ι] in
/-- At rest, the barber does not hold `FIFO`. -/
theorem Quiet.holdsFifo (hq : Quiet s) : s.barber.holdsFifo = 0 := by
  rcases hq.barber with hparked | ⟨hhome, -⟩
  · revert hparked
    cases s.barber <;> simp [BarberPc.Parked, BarberPc.holdsFifo]
  · rw [hhome]
    rfl

/-- **From rest, a client that wants a cut begins a visit.** -/
theorem enter (h : Rel v K s t) (hq : Quiet s) {c : ι} (hwants : t.Wants K c) :
    ∃ l s', (program v K).system.Run s l s' ∧ l.filterMap id = [] ∧ Rel v K s' t ∧
      Visit c s' := by
  -- the wait on `CHECK`
  have hwait : ∀ s, Rel v K s t → Quiet s → (s.client c).pc = .waitCheck →
      ∃ s', (program v K).system.step s none s' ∧ Rel v K s' t ∧ Visit c s' := by
    intro s h hq hpc
    have hfree : s.mem.semCheck = 1 := by
      have hzero : checkHolders s.n = 0 := by
        rw [checkHolders_eq]
        exact census_eq_zero fun c => by rw [hq.outside c]; rfl
      have := h.locks.check
      omega
    have hstep : getCut v (K.cutsNumber c) (K.pid c) s.mem (s.client c) =
        some ({ s.mem with semCheck := 0 }, { s.client c with pc := .waitFifo }, none) := by
      simp [getCut, hpc, hfree]
    refine ⟨_, step_client hstep, rel_client_silent h hstep, ?_, ?_, hq.holdsFifo⟩ <;>
      simp [State.setClient, ClientPc.Visiting]
  rcases hq.wanting h hwants with hpc | hpc
  · have hlt : (s.client c).cutsCounter < K.cutsNumber c := by
      have := (h.client c).cuts
      have := hwants.2
      omega
    have hstep : getCut v (K.cutsNumber c) (K.pid c) s.mem (s.client c) =
        some (s.mem, { s.client c with pc := .waitCheck }, none) := by
      simp [getCut, hpc, hlt]
    have hquiet : Quiet (s.setClient c s.mem { s.client c with pc := .waitCheck }) :=
      hq.setClient rfl (hq.pending c)
    obtain ⟨s', hstep', hrel, hvisit⟩ := hwait _ (rel_client_silent h hstep) hquiet (by simp)
    exact ⟨[none, none], s', .cons (step_client hstep) (.single hstep'), rfl, hrel, hvisit⟩
  · obtain ⟨s', hstep, hrel, hvisit⟩ := hwait s h hq hpc
    exact ⟨[none], s', .single hstep, rfl, hrel, hvisit⟩

/-- What a visit of `c` can end with. -/
def Move.Visits (c : ι) (a : Move ι) : Prop :=
  a = .wake c ∨ a = .sit c ∨ a = .refuse c

omit [Fintype ι] in
/-- The state of the shop settles what the visit of a client ends with. -/
theorem Move.Visits.unique {c : ι} {a a' : Move ι} {t'' : Spec ι} (ha : a.Visits c)
    (ha' : a'.Visits c) (h : t.move K a = some t') (h' : t.move K a' = some t'') : a = a' := by
  rcases ha with rfl | rfl | rfl <;> rcases ha' with rfl | rfl | rfl <;>
    simp_all [Spec.move_wake, Spec.move_sit, Spec.move_refuse]
  all_goals omega

omit [Fintype ι] in
/-- Only who wants a cut comes for a visit. -/
theorem Move.Visits.wants {c : ι} {a : Move ι} (ha : a.Visits c) (h : t.move K a = some t') :
    t.Wants K c := by
  rcases ha with rfl | rfl | rfl
  · exact (Spec.move_wake.mp h).1.2
  · exact (Spec.move_sit.mp h).1.2.1
  · exact (Spec.move_refuse.mp h).1.2.1

/-- `s` can come to rest in `s'` by showing what the move `a` shows. -/
def Makes (v : Version) (K : Setting ι) (s : State ι) (a : Move ι) (t' : Spec ι) : Prop :=
  ∃ l s', (program v K).system.Run s l s' ∧ l.filterMap id = (a.event K.pid).toList ∧
    Rel v K s' t' ∧ Quiet s'

/-- A silent run, a step that shows the move, and the way to rest. -/
theorem makes_of_step {s₁ s₂ : State ι} {l : List (Option Event)} {a : Move ι} {e : Option Event}
    (hrun : (program v K).system.Run s l s₁) (hl : l.filterMap id = [])
    (hstep : (program v K).system.step s₁ e s₂) (he : e = a.event K.pid) (h : Rel v K s₂ t')
    (hcalm : Calm s₂) : Makes v K s a t' := by
  obtain ⟨l', s', hrun', hl', hquiet, hrel⟩ := calm_flush h hcalm
  refine ⟨l ++ e :: l', s', hrun.append (.cons hstep hrun'), ?_, hrel, hquiet⟩
  rw [List.filterMap_append, hl, List.filterMap_cons, hl', ← he]
  cases e <;> rfl

/-- **A client wakes the barber, sits down, or is refused.** -/
theorem make_visit (h : Rel v K s t) (hq : Quiet s) {c : ι} {a : Move ι} (ha : a.Visits c)
    (hmove : t.move K a = some t') : Makes v K s a t' := by
  obtain ⟨l, s₁, hrun, hl, hrel, hvisit⟩ := enter h hq (ha.wants hmove)
  obtain ⟨l', s₂, m, cl, ev, hrun', hl', hrel', hvisit', hstep⟩ := visit_run hrel hvisit
  obtain ⟨t'', a', ha', hevent, hmove', hrel''⟩ := rel_client_event hrel' hstep
  obtain rfl := Move.Visits.unique ha ha' hmove hmove'
  rw [hmove] at hmove'
  cases hmove'
  exact makes_of_step (hrun.append hrun') (by rw [List.filterMap_append, hl, hl']; rfl)
    (step_client hstep) hevent.symm hrel'' (calm_after_event hrel' hvisit' hstep)

/-! ## The moves of the barber -/

/-- At rest and awake, the barber is about to cut the one in the chair, or to look who is
next. -/
theorem Quiet.awake (hq : Quiet s) (h : Rel v K s t) (hawake : t.awake = true) :
    (∃ c, t.chair = some c ∧ (s.barber = .cutChair (K.pid c) ∨ s.barber = .cut (K.pid c))) ∨
    t.chair = none ∧ s.barber = .waitFifo := by
  have hchair := h.chair
  rcases hq.barber with hparked | ⟨hhome, hzero⟩
  · cases hb : s.barber <;> rw [hb] at hparked hchair <;> simp only [BarberPc.Parked] at hparked
    · obtain ⟨c, hc, rfl⟩ := hchair
      exact .inl ⟨c, hc, .inl rfl⟩
    · exact .inr ⟨hchair, rfl⟩
    · obtain ⟨c, hc, rfl⟩ := hchair
      exact .inl ⟨c, hc, .inr rfl⟩
  · have halarm := h.alarm
    rw [hhome, hzero] at halarm
    rw [halarm.home] at hawake
    cases hawake

/-- With nobody in the chair he looks who is next. -/
theorem Quiet.waitFifo (hq : Quiet s) (h : Rel v K s t) (hawake : t.awake = true)
    (hnone : t.chair = none) : s.barber = .waitFifo := by
  rcases hq.awake h hawake with ⟨c, hc, -⟩ | ⟨-, hb⟩
  · rw [hnone] at hc
    cases hc
  · exact hb

omit [Fintype ι] in
/-- Somebody in the chair keeps the barber awake. -/
theorem awake_of_chair (h : t.Ok K) {c : ι} (hc : t.chair = some c) : t.awake = true := by
  by_contra hne
  rw [Bool.not_eq_true] at hne
  rw [(h.asleep hne).1] at hc
  cases hc

omit [Fintype ι] [DecidableEq ι] in
/-- With every client outside and the barber out of the queue the shop is calm. -/
theorem calm_of_outside (hout : ∀ c, (s.client c).pc.phase = .outside)
    (hpop : ∀ p, s.barber ≠ .pop p) (hsleep : s.barber ≠ .sleep) : Calm s :=
  ⟨fun c => .inl (hout c), hpop, hsleep⟩

/-- **The barber cuts the one in the chair.** -/
theorem make_cut (h : Rel v K s t) (hq : Quiet s) {c : ι} (hmove : t.move K (.cut c) = some t') :
    Makes v K s (.cut c) t' := by
  have hc := (Spec.move_cut.mp hmove).1
  have hstep : startWork v s.mem s.barber =
      some (s.mem, .waitFifo, some (.cut (K.pid c))) := by
    rcases hq.awake h (awake_of_chair h.ok hc) with ⟨c', hc', hb⟩ | ⟨hnone, -⟩
    · rw [hc] at hc'
      cases hc'
      rcases hb with hb | hb <;> rw [hb] <;> rfl
    · rw [hnone] at hc
      cases hc
  obtain ⟨t'', a, hevent, hmove', hrel⟩ := rel_barber_event h hstep
  obtain rfl : a = .cut c := by
    cases a <;> simp only [Move.event, Option.some.injEq, reduceCtorEq, Event.cut.injEq] at hevent
    rw [K.pid_injective hevent]
  rw [hmove] at hmove'
  cases hmove'
  refine makes_of_step (.nil s) rfl (step_barber hstep) rfl hrel (calm_of_outside ?_ ?_ ?_) <;>
    simp [State.setBarber, hq.outside]

/-- The barber inside `popFifo`, with every client outside, and after it. -/
inductive Popping (v : Version) (K : Setting ι) (t : Spec ι) (s : State ι) : Prop
  | inside (p : PopPc) (barber : s.barber = .pop p) (rel : Rel v K s t)
  | empty (barber : s.barber = .sleep) (rel : Rel v K s t)
  | called (c : ι) (t' : Spec ι) (barber : s.barber = .postFifo (K.pid c))
      (move : t.move K .next = some t') (rel : Rel v K s t')

/-- **The barber looks who is next**: from before the inner loop, with nothing to be seen, it
comes to know that nobody waits, or to call the first who does. -/
theorem pop_run (h : Rel v K s t) (hout : ∀ c, (s.client c).pc.phase = .outside)
    (hb : s.barber = .waitFifo) :
    ∃ l s', (program v K).system.Run s l s' ∧ l.filterMap id = [] ∧
      (∀ c, (s'.client c).pc.phase = .outside) ∧ Popping v K t s' ∧
      ∀ p, s'.barber ≠ .pop p := by
  obtain ⟨m, b, e, hstep⟩ := h.barber_enabled (by simp [hb]) fun _ c => by rw [hout c]; rfl
  obtain ⟨rfl, p, rfl⟩ : e = none ∧ ∃ p, b = .pop p := by
    rw [hb] at hstep
    obtain ⟨x, -, hstep⟩ := Option.map_eq_some_iff.mp hstep
    cases hstep
    exact ⟨rfl, _, rfl⟩
  have hrel := rel_barber_silent h hstep (by simp [hb])
  have progress : ∀ s, (∀ c, (s.client c).pc.phase = .outside) ∧ Popping v K t s →
      ¬ (∀ p, s.barber ≠ .pop p) → ∃ e s', (program v K).system.step s e s' ∧ e = none ∧
        ((∀ c, (s'.client c).pc.phase = .outside) ∧ Popping v K t s') ∧ s'.rank < s.rank := by
    rintro s ⟨hout, hpopping⟩ hne
    push Not at hne
    obtain ⟨p, hp⟩ := hne
    cases hpopping with
    | inside p' hp' h =>
      obtain ⟨m, b, e, hstep⟩ := h.barber_enabled (by simp [hp]) (by simp [hp])
      obtain ⟨rfl, hcases⟩ := rel_barber_pop h hp hstep
      refine ⟨none, _, step_barber hstep, rfl, ⟨fun c => ?_, ?_⟩, rank_barber hstep ?_⟩
      · simpa [State.setBarber] using hout c
      · rcases hcases with ⟨⟨p', rfl⟩, hrel⟩ | ⟨rfl, hrel⟩ | ⟨c, t', rfl, hmove, hrel⟩
        · exact .inside p' rfl hrel
        · exact .empty rfl hrel
        · exact .called c t' rfl hmove hrel
      · rw [hp]
        exact id
    | empty hb h =>
      rw [hp] at hb
      cases hb
    | called c t' hb hmove h =>
      rw [hp] at hb
      cases hb
  obtain ⟨l, s', hrun, hl, hnot, hout', hpopping⟩ := System.drain _ State.rank progress
    ⟨by simpa [State.setBarber] using hout, .inside p rfl hrel⟩
  refine ⟨none :: l, s', .cons (step_barber hstep) hrun, ?_, hout', hpopping, hnot⟩
  rw [List.filterMap_cons]
  exact List.filterMap_eq_nil_iff.mpr hl

/-- **The barber calls the first who waits.** -/
theorem make_next (h : Rel v K s t) (hq : Quiet s) (hmove : t.move K .next = some t') :
    Makes v K s .next t' := by
  obtain ⟨c, q, ⟨hnone, hqueue⟩, -⟩ := Spec.move_next.mp hmove
  have hawake : t.awake = true := by
    by_contra hne
    rw [Bool.not_eq_true] at hne
    rw [(h.ok.asleep hne).2] at hqueue
    cases hqueue
  have hb := hq.waitFifo h hawake hnone
  obtain ⟨l, s₁, hrun, hl, hout, hpopping, hnot⟩ := pop_run h hq.outside hb
  cases hpopping with
  | inside p hp => exact absurd hp (hnot p)
  | empty hb h =>
    have hchair := h.chair
    rw [hb] at hchair
    rw [hchair.2] at hqueue
    cases hqueue
  | called c t'' hb hmove' h =>
    rw [hmove] at hmove'
    cases hmove'
    obtain ⟨l', s₂, hrun', hl', hquiet, hrel⟩ := calm_flush h
      (calm_of_outside hout (by simp [hb]) (by simp [hb]))
    exact ⟨l ++ l', s₂, hrun.append hrun', by rw [List.filterMap_append, hl, hl']; rfl, hrel,
      hquiet⟩

/-- **The barber falls asleep.** -/
theorem make_sleep (h : Rel v K s t) (hq : Quiet s) (hmove : t.move K .sleep = some t') :
    Makes v K s .sleep t' := by
  obtain ⟨hawake, hnone, hqueue⟩ := (Spec.move_sleep.mp hmove).1
  have hb := hq.waitFifo h hawake hnone
  obtain ⟨l, s₁, hrun, hl, hout, hpopping, hnot⟩ := pop_run h hq.outside hb
  cases hpopping with
  | inside p hp => exact absurd hp (hnot p)
  | called c t'' hb hmove' h =>
    obtain ⟨c, q, ⟨-, hq⟩, -⟩ := Spec.move_next.mp hmove'
    rw [hqueue] at hq
    cases hq
  | empty hb h =>
    obtain ⟨m, b, e, hstep⟩ := h.barber_enabled (by simp [hb]) (by simp [hb])
    obtain ⟨rfl, rfl⟩ : e = some .sleep ∧ b = .postFifoSleep := by
      rw [hb] at hstep
      obtain ⟨x, -, hstep⟩ := Option.map_eq_some_iff.mp hstep
      cases hstep
      exact ⟨rfl, rfl⟩
    obtain ⟨t'', a, hevent, hmove', hrel⟩ := rel_barber_event h hstep
    obtain rfl : a = .sleep := by
      cases a <;> first | rfl | simp [Move.event] at hevent
    rw [hmove] at hmove'
    cases hmove'
    refine makes_of_step hrun hl (step_barber hstep) rfl hrel (calm_of_outside ?_ ?_ ?_) <;>
      simp [State.setBarber, hout]

/-- **Every move of the shop can be made.** -/
theorem make_move (h : Rel v K s t) (hq : Quiet s) {a : Move ι} (hmove : t.move K a = some t') :
    Makes v K s a t' := by
  cases a with
  | wake c => exact make_visit h hq (.inl rfl) hmove
  | sit c => exact make_visit h hq (.inr (.inl rfl)) hmove
  | refuse c => exact make_visit h hq (.inr (.inr rfl)) hmove
  | cut c => exact make_cut h hq hmove
  | next => exact make_next h hq hmove
  | sleep => exact make_sleep h hq hmove

/-- **A barber shop is realised by either program**: every move of the shop is a run of the
program from rest to rest. -/
theorem realization (v : Version) (K : Setting ι) :
    Simulation (Spec.machine K).system (program v K).system (Move.event K.pid) id
      (fun t s => Rel v K s t ∧ Quiet s) where
  init t h := by
    cases h
    exact ⟨startState K, start_startState K, rel_start (start_startState K),
      fun _ => rfl, fun _ => rfl, .inr ⟨rfl, rfl⟩⟩
  step t s a t' hR hstep := make_move hR.1 hR.2 (Spec.machine_step.mp hstep)

end SystemyOperacyjne.BarberShop
