import SystemyOperacyjne.Analysis.BarberShopMoves

/-!
# The two barber shops

What the simulation between the programs and the shop says of the programs: the clients are cut
in the order in which they took a place (`cuts_in_order`), both programs show the same
(`same_traces`), neither can get stuck (`can_close_down`), and a batch of clients leaves the
shared state ready for the next (`batch_accounts`).
-/

set_option autoImplicit false

namespace SystemyOperacyjne.BarberShop

open Library

/-- The pid that takes a place. -/
def Event.took : Event → Option ℤ
  | .wake pid | .sit pid => some pid
  | .refuse _ | .cut _ | .sleep => none

/-- The pid that is signalled in `cut`. -/
def Event.served : Event → Option ℤ
  | .cut pid => some pid
  | .wake _ | .sit _ | .refuse _ | .sleep => none

/-- The pids that took a place in a run, in order. -/
def pidsTaken (l : List (Option Event)) : List ℤ :=
  l.filterMap fun e => e.bind Event.took

/-- The pids the barber signalled in a run, in order. -/
def pidsCut (l : List (Option Event)) : List ℤ :=
  l.filterMap fun e => e.bind Event.served

variable {ι : Type} [Fintype ι] [DecidableEq ι] {v : Version} {K : Setting ι} {s₀ s : State ι}
  {l : List (Option Event)}

omit [Fintype ι] [DecidableEq ι] in
/-- What a run of the shop shows of the places. -/
theorem pidsTaken_eq {m : List (Move ι)} (h : m.filterMap (Move.event K.pid) = l.filterMap id) :
    pidsTaken l = (m.filterMap Move.took).map K.pid := by
  have hmove : ∀ a : Move ι, (a.event K.pid).bind Event.took = a.took.map K.pid := fun a => by
    cases a <;> rfl
  calc pidsTaken l = (l.filterMap id).filterMap Event.took := List.filterMap_filterMap.symm
    _ = m.filterMap fun a => (a.event K.pid).bind Event.took := by
      rw [← h, List.filterMap_filterMap]
    _ = (m.filterMap Move.took).map K.pid := by
      rw [List.map_filterMap]
      simp only [hmove]

omit [Fintype ι] [DecidableEq ι] in
/-- What a run of the shop shows of the cuts. -/
theorem pidsCut_eq {m : List (Move ι)} (h : m.filterMap (Move.event K.pid) = l.filterMap id) :
    pidsCut l = (m.filterMap Move.served).map K.pid := by
  have hmove : ∀ a : Move ι, (a.event K.pid).bind Event.served = a.served.map K.pid := fun a => by
    cases a <;> rfl
  calc pidsCut l = (l.filterMap id).filterMap Event.served := List.filterMap_filterMap.symm
    _ = m.filterMap fun a => (a.event K.pid).bind Event.served := by
      rw [← h, List.filterMap_filterMap]
    _ = (m.filterMap Move.served).map K.pid := by
      rw [List.map_filterMap]
      simp only [hmove]

/-- **The history of a run of a program**: the pids that took a place are those that were cut,
followed by those that have a place, and `cuts` counts the signals. -/
theorem run_history (hinit : (program v K).system.init s₀)
    (hrun : (program v K).system.Run s₀ l s) :
    ∃ t, Rel v K s t ∧ pidsTaken l = pidsCut l ++ t.seats.map K.pid ∧
      ∀ c, (pidsCut l).count (K.pid c) = t.cuts c := by
  obtain ⟨m, t, hm, hobs, hrel⟩ := (simulation v K).run (rel_start hinit) hrun
  obtain ⟨⟨horder, hcuts⟩, -⟩ := Spec.history_run hm
  refine ⟨t, hrel, ?_, ?_⟩
  · rw [pidsTaken_eq hobs, pidsCut_eq hobs, horder, List.map_append]
  · intro c
    rw [pidsCut_eq hobs, List.count_map_of_injective _ _ K.pid_injective, hcuts]

/-- **Nobody is skipped, cut twice or overtaken** in `cw07/zad1`: in every run the pids the
barber has signalled are a prefix of the pids that took a place, in the order they took it.
SOURCE: cw07/zad1/barber.c:57-116, cw07/zad1/breeder.c:97-156, cw07/zad1/fifo.c:21-41 -/
theorem cuts_in_order (K : Setting ι) (hinit : (program .sysV K).system.init s₀)
    (hrun : (program .sysV K).system.Run s₀ l s) : pidsCut l <+: pidsTaken l := by
  obtain ⟨t, -, horder, -⟩ := run_history hinit hrun
  rw [horder]
  exact List.prefix_append _ _

/-- A shop of two chairs, with two clients who want one cut each. -/
def twoClients : Setting (Fin 2) where
  chairNumber := 2
  cutsNumber _ := 1
  pid c := c + 1
  chairNumber_valid := by decide
  pid_pos c := by omega
  pid_injective c c' h := by
    simp only [add_left_inj, Nat.cast_inj] at h
    exact Fin.ext h

/-- The second client has sat down while the first, who woke the barber, is cut. -/
theorem cuts_in_order_with_one_waiting :
    ∃ l s, (program .sysV twoClients).system.Run (startState twoClients) l s ∧
      pidsCut l = [1] ∧ pidsTaken l = [1, 2] ∧ pidsCut l <+: pidsTaken l := by
  have hsome : ((program .sysV twoClients).exec (startState twoClients)
      (List.replicate 9 (.client 0) ++ List.replicate 16 (.client 1) ++
        List.replicate 5 .barber)).isSome := by decide
  have hrun := Machine.exec_run (Option.some_get hsome).symm
  exact ⟨_, _, hrun, by decide, by decide,
    cuts_in_order twoClients (start_startState twoClients) hrun⟩

/-! ## The two versions show the same -/

/-- Either program shows what a barber shop shows. -/
theorem traces_eq (v : Version) (K : Setting ι) :
    (program v K).system.traces id = (Spec.machine K).system.traces (Move.event K.pid) :=
  Set.Subset.antisymm (simulation v K).traces_subset (realization v K).traces_subset

/-- **The two barber shops agree**: for every number of chairs, every set of clients and every
number of cuts, what `cw07/zad1` can show and what `cw07/zad2` can show are the same
sequences of events.
SOURCE: cw07/zad1/barber.c:57-116, cw07/zad1/breeder.c:97-156, cw07/zad2/barber.c:58-104,
cw07/zad2/breeder.c:99-146 -/
theorem same_traces (K : Setting ι) :
    (program .sysV K).system.traces id = (program .posix K).system.traces id := by
  rw [traces_eq, traces_eq]

/-! ## No deadlock -/

/-- Every client has left and the barber waits to be woken. -/
structure ClosedDown (s : State ι) : Prop where
  left : ∀ c, (s.client c).pc = .left
  barber : s.barber = .waitBarber
  blocked : s.mem.semBarber = 0

/-- At rest in a closed shop every client has left or is about to. -/
theorem about_to_leave {t : Spec ι} (h : Rel v K s t) (hq : Quiet s) (hclosed : t.Closed K)
    (c : ι) : (s.client c).pc = .test ∧ K.cutsNumber c ≤ (s.client c).cutsCounter ∨
      (s.client c).pc = .left := by
  obtain ⟨hchair, hqueue⟩ := h.ok.asleep hclosed.asleep
  obtain ⟨hcuts, hseat, hvisiting, -⟩ := h.client c
  have hout := hq.outside c
  rw [hclosed.cuts c, hq.pending c] at hcuts
  rw [hq.pending c, Spec.seats, hchair, hqueue] at hseat
  cases hpc : (s.client c).pc <;> rw [hpc] at hseat hvisiting hout <;>
    simp [ClientPc.phase, ClientPc.seated, ClientPc.Visiting] at hseat hvisiting hout ⊢ <;> omega

/-- **The clients leave a closed shop.** -/
theorem leave {t : Spec ι} (h : Rel v K s t) (hq : Quiet s) (hclosed : t.Closed K) :
    ∃ l s', (program v K).system.Run s l s' ∧ Rel v K s' t ∧ Quiet s' ∧
      ∀ c, (s'.client c).pc = .left := by
  let rank := fun s : State ι => census (fun cl : Client => if cl.pc = .left then 0 else 1) s.client
  have progress : ∀ s, Rel v K s t ∧ Quiet s → ¬ (∀ c, (s.client c).pc = .left) → ∃ e s',
      (program v K).system.step s e s' ∧ True ∧ (Rel v K s' t ∧ Quiet s') ∧ rank s' < rank s := by
    rintro s ⟨h, hq⟩ hne
    push Not at hne
    obtain ⟨c, hc⟩ := hne
    obtain ⟨hpc, hle⟩ := (about_to_leave h hq hclosed c).resolve_right hc
    have hstep : getCut v (K.cutsNumber c) (K.pid c) s.mem (s.client c) =
        some (s.mem, { s.client c with pc := .left }, none) := by
      simp [getCut, hpc, hle]
    have hquiet : Quiet (s.setClient c s.mem { s.client c with pc := .left }) :=
      hq.setClient rfl (hq.pending c)
    refine ⟨_, _, step_client hstep, trivial, ⟨rel_client_silent h hstep, hquiet⟩, ?_⟩
    have hsum := census_update (fun cl : Client => if cl.pc = .left then 0 else 1) s.client c
      { s.client c with pc := .left }
    simp only [if_neg hc, if_true] at hsum
    simp only [rank, State.setClient]
    omega
  obtain ⟨l, s', hrun, -, hleft, hrel, hq'⟩ := System.drain _ rank progress ⟨h, hq⟩
  exact ⟨l, s', hrun, hrel, hq', hleft⟩

/-- **No deadlock in either shop**: from every reachable state some continuation leads to the
state in which every client has left `getCut` and the barber waits to be woken.
SOURCE: cw07/zad1/barber.c:57-116, cw07/zad1/breeder.c:97-156, cw07/zad2/barber.c:58-104,
cw07/zad2/breeder.c:99-146 -/
theorem can_close_down (v : Version) (K : Setting ι) (h : (program v K).system.Reachable s) :
    ∃ l s', (program v K).system.Run s l s' ∧ ClosedDown s' := by
  obtain ⟨t, -, hrel⟩ := (simulation v K).reachable h
  obtain ⟨l₁, s₁, t₁, hrun₁, hq₁, hrel₁⟩ := flush hrel
  obtain ⟨m, t₂, hm, hclosed, -⟩ := Spec.can_close hrel₁.ok
  obtain ⟨l₂, s₂, hrun₂, -, hrel₂, hq₂⟩ := (realization v K).run ⟨hrel₁, hq₁⟩ hm
  obtain ⟨l₃, s₃, hrun₃, hrel₃, hq₃, hleft⟩ := leave hrel₂ hq₂ hclosed
  refine ⟨l₁ ++ l₂ ++ l₃, s₃, (hrun₁.append hrun₂).append hrun₃, ?_⟩
  -- a parked barber would be awake
  rcases hq₃.barber with hparked | ⟨hhome, hzero⟩
  · have halarm := hrel₃.alarm
    rw [hclosed.asleep] at halarm
    have hbusy : s₃.barber.stage = .busy := by
      revert hparked
      cases s₃.barber <;> simp [BarberPc.Parked, BarberPc.stage]
    rw [hbusy] at halarm
    cases halarm.busy
  · exact ⟨hleft, hhome, hzero⟩

/-- A client of `cw07/zad2` waits on `SLOWER`, the barber is about to raise it, and the shop
can still close. -/
theorem can_close_down_from_handshake :
    ∃ s, (program .posix twoClients).system.Reachable s ∧ (s.client 0).pc = .handshake ∧
      s.barber = .postSlower ∧
      ∃ l s', (program .posix twoClients).system.Run s l s' ∧ ClosedDown s' := by
  have h := Machine.exec_reachable (M := program .posix twoClients) (start_startState twoClients)
    (List.replicate 5 (.client 0) ++ List.replicate 2 .barber) (by decide)
  exact ⟨_, h, by decide, by decide, can_close_down .posix twoClients h⟩

/-! ## The accounts of a batch -/

/-- **The accounts of a batch**: a client that has left was sent as many signals as it wanted
cuts and has none pending; and when all have left and the barber is blocked on `BARBER`, the
shared state is ready for a new batch.
SOURCE: cw07/zad1/barber.c:57-145, cw07/zad1/breeder.c:97-156, cw07/zad2/barber.c:58-134,
cw07/zad2/breeder.c:99-146 -/
theorem batch_accounts (v : Version) (K : Setting ι) (hinit : (program v K).system.init s₀)
    (hrun : (program v K).system.Run s₀ l s) :
    (∀ c, (s.client c).pc = .left →
      (pidsCut l).count (K.pid c) = K.cutsNumber c ∧ (s.client c).pending = 0) ∧
    ((∀ c, (s.client c).pc = .left) → s.barber = .waitBarber ∨ s.barber = .sleep →
      s.mem.semBarber = 0 → isEmptyFifo s.mem.fifo = true ∧ s.mem.semBarber = 0 ∧
        s.mem.semFifo = 1 ∧ s.mem.semCheck = 1 ∧ s.mem.semSlower = 0) := by
  obtain ⟨t, hrel, -, hcount⟩ := run_history hinit hrun
  constructor
  · intro c hc
    obtain ⟨hcuts, hseat, -, hdone⟩ := hrel.client c
    have hle := hrel.ok.cuts c
    have hge := hdone hc
    rw [hc, ClientPc.seated] at hseat
    rw [hcount c]
    omega
  · intro hleft hb hzero
    have halarm := hrel.alarm
    have hhome : s.barber = .waitBarber := by
      apply hb.resolve_right
      intro hsleep
      rw [hsleep] at halarm
      have := halarm.busy_pos
      omega
    rw [hhome, hzero] at halarm
    obtain ⟨-, hqueue⟩ := hrel.ok.asleep halarm.home
    have hout : ∀ c, (s.client c).pc.phase = .outside := fun c => by rw [hleft c]; rfl
    have hring := hrel.ring.resting (by simp [hhome]) (by simp [hleft])
    rw [hqueue] at hring
    have hnone : checkHolders s.n = 0 := by
      rw [checkHolders_eq]
      exact census_eq_zero fun c => by rw [hout c]; rfl
    have hcheck := hrel.locks.check
    have hfifo := hrel.locks.fifo
    rw [hhome, BarberPc.holdsFifo] at hfifo
    refine ⟨hring.isEmptyFifo_iff.mpr rfl, hzero, ?_, by omega, ?_⟩
    · unfold checkHolders at hnone
      omega
    · cases v
      · exact SysVAlarm.slower halarm
      · have := PosixAlarm.slower halarm
        rwa [if_neg (by simp [BarberPc.stage])] at this

/-- For the numerals of `Fin 2`. -/
local instance neZero_two : NeZero 2 := ⟨by decide⟩

/-- Two clients come, are cut, and leave: who makes how many steps. -/
def twoCutTurns : List (ℕ × Choice (Fin 2)) :=
  [(5, .client 0), (3, .barber), (4, .client 0), (16, .client 1), (18, .barber), (2, .client 0),
    (2, .client 1), (4, .barber)]

/-- What has happened then in `cw07/zad2`. -/
def twoCut : List (Option Event) × State (Fin 2) :=
  ((program .posix twoClients).exec (startState twoClients)
    (twoCutTurns.flatMap fun turn => List.replicate turn.1 turn.2)).get (by decide +kernel)

/-- Both clients of `cw07/zad2` come, are cut, and leave; the barber falls asleep, and the
shared state is ready again. -/
theorem batch_accounts_of_two :
    ∃ l s, (program .posix twoClients).system.Run (startState twoClients) l s ∧
      ClosedDown s ∧ pidsCut l = [1, 2] ∧
      (∀ c, (pidsCut l).count (twoClients.pid c) = 1 ∧ (s.client c).pending = 0) ∧
      isEmptyFifo s.mem.fifo = true ∧ s.mem.semFifo = 1 ∧ s.mem.semCheck = 1 ∧
      s.mem.semSlower = 0 := by
  have hrun : (program .posix twoClients).system.Run (startState twoClients) twoCut.1 twoCut.2 := by
    unfold twoCut
    exact Machine.exec_run_get _
  obtain ⟨hclients, hshared⟩ := batch_accounts .posix twoClients (start_startState twoClients) hrun
  have hleft : ∀ c, (twoCut.2.client c).pc = .left := by decide +kernel
  have hclosed : ClosedDown twoCut.2 := ⟨hleft, by decide +kernel, by decide +kernel⟩
  obtain ⟨hring, -, hfifo, hcheck, hslower⟩ := hshared hleft (.inl hclosed.barber) hclosed.blocked
  have hcut : pidsCut twoCut.1 = [1, 2] := by decide +kernel
  have hcuts : ∀ c, (pidsCut twoCut.1).count (twoClients.pid c) = 1 ∧
      (twoCut.2.client c).pending = 0 := fun c => hclients c (hleft c)
  exact ⟨twoCut.1, twoCut.2, hrun, hclosed, hcut, hcuts, hring, hfifo, hcheck, hslower⟩

end SystemyOperacyjne.BarberShop
