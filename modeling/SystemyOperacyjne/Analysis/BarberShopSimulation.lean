import SystemyOperacyjne.Analysis.BarberShopLocks
import SystemyOperacyjne.Analysis.BarberShopSpecRuns
import SystemyOperacyjne.Analysis.FifoQueue

/-!
# Both programs are barber shops

`Rel` relates a state of either program to a state of the shop as its clients see it: the
locks and the alarm hold, the ring holds the pids of those who wait, the cell `chair` or the
barber's `toCut` is the pid of the one in the chair, and a client's counter and pending
signals add up to its cuts. Every step of a program is no move, the move its event shows, or,
when `popFifo` returns a pid, the move `next` (`rel_barber`, `rel_client`).
-/

set_option autoImplicit false

namespace SystemyOperacyjne.BarberShop

open Library Semaphore

/-! ## The clients -/

/-- `1` for a client that has taken a place and waits, or will wait, for its cut. -/
def ClientPc.seated : ClientPc → ℕ
  | .suspend => 1
  | .postFifo res | .postCheck res => if res = -1 then 0 else 1
  | .test | .waitCheck | .waitFifo | .getValue | .postBarber | .handshake | .writeChair
  | .push _ | .left => 0

/-- A client that has not yet found out whether there is a place. -/
def ClientPc.Visiting : ClientPc → Prop
  | .waitCheck | .waitFifo | .getValue | .postBarber | .handshake | .writeChair | .push _ => True
  | .test | .postFifo _ | .postCheck _ | .suspend | .left => False

/-- **The account of a client** with `cuts` cuts and `seats` places. -/
structure ClientOk (S cuts seats : ℕ) (t : Client) : Prop where
  cuts : t.cutsCounter + t.pending = cuts
  seat : seats + t.pending = t.pc.seated
  visiting : t.pc.Visiting → t.cutsCounter < S
  left : t.pc = .left → S ≤ t.cutsCounter

/-- How many places an event takes. -/
def seatsTaken : Option Event → ℕ
  | some (.wake _) | some (.sit _) => 1
  | some (.refuse _) | some (.cut _) | some .sleep | none => 0

section Client

variable {v : Version} {S cuts seats : ℕ} {pid : ℤ} {m m' : Shared} {c c' : Client}
  {e : Option Event}

/-- A client's own step keeps its account. -/
theorem ClientOk.step (h : ClientOk S cuts seats c)
    (hstep : getCut v S pid m c = some (m', c', e)) :
    ClientOk S cuts (seats + seatsTaken e) c' := by
  obtain ⟨hcuts, hseat, hvisiting, hleft⟩ := h
  cases hpc : c.pc <;> simp only [getCut, hpc, reduceCtorEq] at hstep hseat hvisiting hleft
  case' handshake => cases v <;> simp only at hstep
  case' waitCheck | waitFifo | handshake.posix =>
    obtain ⟨x, hx, hstep⟩ := Option.map_eq_some_iff.mp hstep
  case' push p =>
    split at hstep
    case' h_2 => split at hstep
  case' suspend => obtain ⟨hpending, hstep⟩ := Option.ite_none_left_eq_some.mp hstep
  case' test | getValue | postCheck => split at hstep
  all_goals
    cases hstep
    simp only [ClientPc.seated, ClientPc.Visiting] at hseat hvisiting
    constructor <;> simp_all [ClientPc.seated, ClientPc.Visiting, seatsTaken] <;> omega

/-- **The events of a client**: it writes the chair, or its call of `pushFifo` returns. -/
theorem getCut_event {ev : Event} (hstep : getCut v S pid m c = some (m', c', some ev)) :
    (c.pc = .writeChair ∧ ev = .wake pid ∧ m' = { m with fifo := { m.fifo with chair := pid } } ∧
      c' = { c with pc := .postFifo 1 }) ∨
    ∃ p f res, c.pc = .push p ∧ pushStep pid m.fifo p = (f, .inr res) ∧
      m' = { m with fifo := f } ∧
      (res = -1 ∧ ev = .refuse pid ∧ c' = { c with pc := .postFifo (-1) } ∨
        res ≠ -1 ∧ ev = .sit pid ∧ c' = { c with pc := .postFifo 0 }) := by
  cases hpc : c.pc <;> simp only [getCut, hpc, reduceCtorEq] at hstep
  case writeChair =>
    cases hstep
    exact .inl ⟨rfl, rfl, rfl, rfl⟩
  case push p =>
    split at hstep
    · cases hstep
    · rename_i f res hpush
      split at hstep
      · rename_i hres
        cases hstep
        exact .inr ⟨p, f, res, rfl, hpush, rfl, .inl ⟨hres, rfl, rfl⟩⟩
      · rename_i hres
        cases hstep
        exact .inr ⟨p, f, res, rfl, hpush, rfl, .inr ⟨hres, rfl, rfl⟩⟩
  case handshake =>
    cases v <;> simp only at hstep
    · cases hstep
    · obtain ⟨x, -, hstep⟩ := Option.map_eq_some_iff.mp hstep
      cases hstep
  case waitCheck | waitFifo =>
    obtain ⟨x, -, hstep⟩ := Option.map_eq_some_iff.mp hstep
    cases hstep
  case suspend =>
    obtain ⟨-, hstep⟩ := Option.ite_none_left_eq_some.mp hstep
    cases hstep
  all_goals cases hstep

/-- What a silent step of a client does to the memory: nothing, or one access of
`pushFifo`. -/
theorem getCut_silent (hstep : getCut v S pid m c = some (m', c', none)) :
    (∃ p p', c.pc = .push p ∧ c'.pc = .push p' ∧
      pushStep pid m.fifo p = (m'.fifo, .inl p')) ∨
    m'.fifo = m.fifo ∧ (∀ p, c.pc ≠ .push p) ∧
      ((∀ p, c'.pc ≠ .push p) ∨ c.pc = .getValue ∧ c'.pc = .push .readHeadTail) := by
  cases hpc : c.pc <;> simp only [getCut, hpc, reduceCtorEq] at hstep
  case push p =>
    split at hstep
    · rename_i f p' hpush
      cases hstep
      exact .inl ⟨p, p', rfl, rfl, hpush⟩
    · split at hstep <;> cases hstep
  case handshake =>
    cases v <;> simp only at hstep
    · cases hstep
      simp
    · obtain ⟨x, -, hstep⟩ := Option.map_eq_some_iff.mp hstep
      cases hstep
      simp
  case waitCheck | waitFifo =>
    obtain ⟨x, -, hstep⟩ := Option.map_eq_some_iff.mp hstep
    cases hstep
    simp
  case suspend =>
    obtain ⟨-, hstep⟩ := Option.ite_none_left_eq_some.mp hstep
    cases hstep
    simp
  case test | getValue | postCheck => split at hstep <;> cases hstep <;> simp
  case writeChair => cases hstep
  all_goals
    cases hstep
    simp

/-- Who shows an event wants a cut and has no place. -/
theorem ClientOk.wants {ev : Event} (h : ClientOk S cuts seats c)
    (hstep : getCut v S pid m c = some (m', c', some ev)) : cuts < S ∧ seats = 0 := by
  obtain ⟨hcuts, hseat, hvisiting, -⟩ := h
  rcases getCut_event hstep with ⟨hpc, -⟩ | ⟨p, f, res, hpc, -⟩ <;>
    · rw [hpc] at hseat hvisiting
      have := hvisiting trivial
      simp only [ClientPc.seated] at hseat
      omega

end Client

/-! ## The ring and the chair -/

variable {ι : Type}

/-- **The ring** holds the pids of those who wait, or is on its way from one queue to the
next under the hands of the one process that holds `FIFO`. -/
structure Ring (K : Setting ι) (f : Fifo) (b : BarberPc) (pc : ι → ClientPc) (q : List ι) :
    Prop where
  popping : ∀ p, b = .pop p → Popped K.chairNumber (q.map K.pid) (pop.finish f p)
  pushing : ∀ c p, pc c = .push p →
    Pushed K.chairNumber (q.map K.pid) (K.pid c) ((push (K.pid c)).finish f p)
  resting : (∀ p, b ≠ .pop p) → (∀ c p, pc c ≠ .push p) → f.Holds K.chairNumber (q.map K.pid)

/-- **The one in the chair**: its pid is in the cell `chair` until the barber has read it,
and then in the barber's `toCut`. -/
def ChairOk (pid : ι → ℤ) (cell : ℤ) (t : Spec ι) : BarberPc → Prop
  | .waitBarber | .postBarber | .postSlower | .waitFifoChair | .readChair =>
    t.awake = true → ∃ c, t.chair = some c ∧ cell = pid c
  | .postFifoChair x | .cutChair x | .postFifo x | .cut x => ∃ c, t.chair = some c ∧ x = pid c
  | .waitFifo | .pop _ => t.chair = none
  | .sleep => t.chair = none ∧ t.queue = []
  | .postFifoSleep => t.awake = false

variable [Fintype ι] [DecidableEq ι]

/-- **A state of a program and a state of the shop** that show the same. -/
structure Rel (v : Version) (K : Setting ι) (s : State ι) (t : Spec ι) : Prop where
  ok : t.Ok K
  locks : Locks s.n s.mem.semCheck s.mem.semFifo s.barber.holdsFifo
  alarm : Alarm s.n v s.mem.semBarber s.mem.semSlower s.barber.stage t.awake
  ring : Ring K s.mem.fifo s.barber (fun c => (s.client c).pc) t.queue
  chair : ChairOk K.pid s.mem.fifo.chair t s.barber
  client : ∀ c, ClientOk (K.cutsNumber c) (t.cuts c) (t.seats.count c) (s.client c)

variable {v : Version} {K : Setting ι} {s : State ι} {t t' : Spec ι} {m : Shared} {b : BarberPc}
  {e : Option Event} {q : List ι}

omit [Fintype ι] [DecidableEq ι] in
/-- A step outside the two calls leaves the ring as it is. -/
theorem Ring.congr {f f' : Fifo} {pc pc' : ι → ClientPc} {b b' : BarberPc}
    (hr : Ring K f b pc q) (hf : f' = f) (hb : ∀ p, b' = .pop p ↔ b = .pop p)
    (hpc : ∀ c p, pc' c = .push p ↔ pc c = .push p) : Ring K f' b' pc' q := by
  subst hf
  refine ⟨fun p hp => hr.popping p ((hb p).mp hp),
    fun c p hp => hr.pushing c p ((hpc c p).mp hp), fun hpop hpush => ?_⟩
  exact hr.resting (fun p hp => hpop p ((hb p).mpr hp)) fun c p hp => hpush c p ((hpc c p).mpr hp)

/-- While a client holds `FIFO`, neither the barber nor another client is at the ring. -/
theorem ring_alone {check fifo : ℕ} (hl : Locks s.n check fifo s.barber.holdsFifo) {c : ι}
    (hc : (s.client c).pc.phase.holdsFifo = 1) :
    (∀ p, s.barber ≠ .pop p) ∧ ∀ c' p, (s.client c').pc = .push p → c' = c := by
  constructor
  · intro p hp
    have := hl.barber_out hc
    rw [hp] at this
    cases this
  · intro c' p hp
    apply hl.check_alone (by rw [hp]; rfl)
    revert hc
    cases (s.client c).pc.phase <;> simp [CPhase.holdsFifo, CPhase.holdsCheck]

/-- A silent step of a client leaves the ring on its way to the same queue. -/
theorem ring_client_silent {c : ι} {cl : Client} {S : ℕ}
    (hr : Ring K s.mem.fifo s.barber (fun c => (s.client c).pc) q)
    (hl : Locks s.n s.mem.semCheck s.mem.semFifo s.barber.holdsFifo)
    (hstep : getCut v S (K.pid c) s.mem (s.client c) = some (m, cl, none)) :
    Ring K m.fifo s.barber (fun c' => ((s.setClient c m cl).client c').pc) q := by
  have hself : ((s.setClient c m cl).client c).pc = cl.pc := by rw [State.setClient_self]
  have hother : ∀ c', c' ≠ c → ((s.setClient c m cl).client c').pc = (s.client c').pc := by
    intro c' hne
    rw [State.setClient_of_ne hne]
  rcases getCut_silent hstep with ⟨p, p', hpc, hpc', hpush⟩ | ⟨hf, hnot, hpc'⟩
  · obtain ⟨hbarber, halone⟩ := ring_alone hl (c := c) (by rw [hpc]; rfl)
    refine ⟨fun p hp => absurd hp (hbarber p), ?_, ?_⟩
    · intro c' p'' hp
      by_cases hc : c' = c
      · subst hc
        rw [hself, hpc'] at hp
        cases hp
        have := hr.pushing c' p hpc
        rwa [Procedure.finish_of_call hpush] at this
      · rw [hother c' hc] at hp
        exact absurd (halone c' p'' hp) hc
    · intro _ hnone
      exact absurd (hself.trans hpc') (hnone c p')
  rcases hpc' with hnot' | ⟨hget, hstart⟩
  · apply hr.congr hf (fun _ => Iff.rfl)
    intro c' p
    by_cases hc : c' = c
    · subst hc
      rw [hself]
      exact iff_of_false (hnot' p) (hnot p)
    · rw [hother c' hc]
  · obtain ⟨hbarber, halone⟩ := ring_alone hl (c := c) (by rw [hget]; rfl)
    have hholds := hr.resting hbarber fun c' p hp => by
      rw [halone c' p hp, hget] at hp
      cases hp
    refine ⟨fun p hp => absurd hp (hbarber p), ?_, ?_⟩
    · intro c' p hp
      by_cases hc : c' = c
      · subst hc
        rw [hself, hstart] at hp
        cases hp
        rw [push_finish, hf]
        exact pushFifo_holds hholds _
      · rw [hother c' hc] at hp
        exact absurd (halone c' p hp) hc
    · intro _ hnone
      exact absurd (hself.trans hstart) (hnone c _)

omit [Fintype ι] [DecidableEq ι] in
/-- The ring does not depend on the chair. -/
theorem Fifo.Holds.chair {N : ℕ} {f : Fifo} {q : List ℤ} (h : f.Holds N q) (x : ℤ) :
    Fifo.Holds N { f with chair := x } q :=
  ⟨h.max, h.tail_nonneg, h.tail_lt, h.fits, h.empty, h.head, h.cells⟩

/-- When a client is done at the ring, the ring is at rest. -/
theorem ring_rest {c : ι} {cl : Client} {q' : List ι}
    (hl : Locks s.n s.mem.semCheck s.mem.semFifo s.barber.holdsFifo)
    (hc : (s.client c).pc.phase.holdsFifo = 1) (hcl : ∀ p, cl.pc ≠ .push p)
    (hholds : m.fifo.Holds K.chairNumber (q'.map K.pid)) :
    Ring K m.fifo s.barber (fun c' => ((s.setClient c m cl).client c').pc) q' := by
  obtain ⟨hbarber, halone⟩ := ring_alone hl hc
  refine ⟨fun p hp => absurd hp (hbarber p), ?_, fun _ _ => hholds⟩
  intro c' p hp
  by_cases hne : c' = c
  · subst hne
    rw [State.setClient_self] at hp
    exact absurd hp (hcl p)
  · rw [State.setClient_of_ne hne] at hp
    exact absurd (halone c' p hp) hne

/-! ## The steps of a client -/

/-- A barber that has fallen asleep still holds `FIFO`. -/
theorem BarberPc.dozing_holdsFifo {b : BarberPc} (h : b.stage = .dozing) : b.holdsFifo = 1 := by
  cases b <;> simp [BarberPc.stage] at h
  rfl

/-- What the locks and the alarm say after a client's step. -/
theorem locks_alarm_client (h : Rel v K s t) {c : ι} {cl : Client}
    (hstep : getCut v (K.cutsNumber c) (K.pid c) s.mem (s.client c) = some (m, cl, e)) :
    Locks (s.setClient c m cl).n m.semCheck m.semFifo s.barber.holdsFifo ∧
    Alarm (s.setClient c m cl).n v m.semBarber m.semSlower s.barber.stage
      (awakeAfter t.awake e) := by
  have move := count_update (fun t : Client => t.pc.phase) s.client c cl
  have hpos : 0 < s.n (s.client c).pc.phase := count_pos (fun c => (s.client c).pc.phase) c
  exact ⟨locks_client h.locks hstep move,
    alarm_client h.alarm h.locks BarberPc.dozing_holdsFifo hstep hpos move⟩

/-- **A silent step of a client** is no move of the shop. -/
theorem rel_client_silent (h : Rel v K s t) {c : ι} {cl : Client}
    (hstep : getCut v (K.cutsNumber c) (K.pid c) s.mem (s.client c) = some (m, cl, none)) :
    Rel v K (s.setClient c m cl) t := by
  obtain ⟨hlocks, halarm⟩ := locks_alarm_client h hstep
  refine ⟨h.ok, hlocks, halarm, ring_client_silent h.ring h.locks hstep, ?_, ?_⟩
  · have hcell : m.fifo.chair = s.mem.fifo.chair := by
      rcases getCut_silent hstep with ⟨p, p', -, -, hpush⟩ | ⟨hf, -⟩
      · rw [← pushStep_chair (K.pid c) s.mem.fifo p, hpush]
      · rw [hf]
    have hchair := h.chair
    rw [← hcell] at hchair
    exact hchair
  · have hself := (h.client c).step hstep
    rw [seatsTaken, Nat.add_zero] at hself
    exact State.forall_setClient
      (P := fun c cl => ClientOk (K.cutsNumber c) (t.cuts c) (t.seats.count c) cl) hself h.client

omit [Fintype ι] in
/-- The accounts after client `c` has taken the last place. -/
theorem clients_seat (h : ∀ c, ClientOk (K.cutsNumber c) (t.cuts c) (t.seats.count c) (s.client c))
    {c : ι} {cl : Client}
    (hself : ClientOk (K.cutsNumber c) (t.cuts c) (t.seats.count c + 1) cl)
    (hseats : t'.seats = t.seats ++ [c]) (hcuts : t'.cuts = t.cuts) (c' : ι) :
    ClientOk (K.cutsNumber c') (t'.cuts c') (t'.seats.count c')
      ((s.setClient c m cl).client c') := by
  rw [hseats, hcuts, List.count_append, List.count_singleton]
  by_cases hc : c' = c
  · subst hc
    rw [if_pos (beq_self_eq_true c'), State.setClient_self]
    exact hself
  · rw [if_neg (by simpa using fun heq => hc heq.symm), Nat.add_zero, State.setClient_of_ne hc]
    exact h c'

/-- **A step of a client that shows an event** is the move that shows it. -/
theorem rel_client_event (h : Rel v K s t) {c : ι} {cl : Client} {ev : Event}
    (hstep : getCut v (K.cutsNumber c) (K.pid c) s.mem (s.client c) = some (m, cl, some ev)) :
    ∃ t' a, (a = .wake c ∨ a = .sit c ∨ a = .refuse c) ∧ a.event K.pid = some ev ∧
      t.move K a = some t' ∧ Rel v K (s.setClient c m cl) t' := by
  obtain ⟨hlocks, halarm⟩ := locks_alarm_client h hstep
  obtain ⟨hlt, hnone⟩ := (h.client c).wants hstep
  have hwants : t.Wants K c := ⟨List.count_eq_zero.mp hnone, hlt⟩
  have hself := (h.client c).step hstep
  have hpos : 0 < s.n (s.client c).pc.phase := count_pos (fun c => (s.client c).pc.phase) c
  rcases getCut_event hstep with ⟨hpc, rfl, rfl, rfl⟩ |
    ⟨p, f, res, hpc, hpush, rfl, hres⟩
  · -- the client takes the chair of a sleeping barber
    rw [hpc] at hpos
    obtain ⟨hawake, hbusy, hdozing⟩ := h.alarm.waking (by
      simp only [ClientPc.phase] at hpos
      omega)
    obtain ⟨hchair, hqueue⟩ := h.ok.asleep hawake
    have hmove := Spec.move_wake.mpr ⟨⟨hawake, hwants⟩, rfl⟩
    refine ⟨_, .wake c, .inl rfl, rfl, hmove, Spec.ok_move h.ok hmove, hlocks, halarm, ?_, ?_,
      fun c' => ?_⟩
    · obtain ⟨hbarber, halone⟩ := ring_alone h.locks (c := c) (by rw [hpc]; rfl)
      refine ring_rest h.locks (by rw [hpc]; rfl) (by simp) ((h.ring.resting hbarber ?_).chair _)
      intro c' p hp
      rw [halone c' p hp, hpc] at hp
      cases hp
    · cases hb : s.barber
      all_goals
        simp only [hb, BarberPc.stage, ne_eq, not_true_eq_false] at hbusy hdozing
      all_goals
        simp only [State.setClient, hb, ChairOk]
        exact fun _ => ⟨c, rfl, rfl⟩
    · have hseats : Spec.seats { t with awake := true, chair := some c } = t.seats ++ [c] := by
        simp [Spec.seats, hchair, hqueue]
      exact clients_seat h.client hself hseats rfl c'
  · -- the call of `pushFifo` returns
    rw [hpc] at hpos
    have hawake := h.alarm.waiting hpos
    obtain ⟨hbarber, -⟩ := ring_alone h.locks (c := c) (by rw [hpc]; rfl)
    have hsleep : s.barber ≠ .sleep := fun hb => by
      have := h.locks.barber_out (c := c) (by rw [hpc]; rfl)
      rw [hb] at this
      cases this
    have hcell : f.chair = s.mem.fifo.chair := by
      rw [← pushStep_chair (K.pid c) s.mem.fifo p, hpush]
    have hpushed := h.ring.pushing c p hpc
    rw [Procedure.finish_of_return hpush, Pushed, List.length_map] at hpushed
    split at hpushed
    · rename_i hplace
      obtain ⟨rfl, hholds⟩ := hpushed
      rcases hres with ⟨hres, -, -⟩ | ⟨-, rfl, rfl⟩
      · cases hres
      rw [← List.map_singleton, ← List.map_append] at hholds
      have hmove := Spec.move_sit.mpr ⟨⟨hawake, hwants, hplace⟩, rfl⟩
      have hseats : Spec.seats { t with queue := t.queue ++ [c] } = t.seats ++ [c] := by
        simp [Spec.seats]
      refine ⟨_, .sit c, .inr (.inl rfl), rfl, hmove, Spec.ok_move h.ok hmove, hlocks, halarm,
        ring_rest h.locks (by rw [hpc]; rfl) (by simp) hholds, ?_,
        clients_seat h.client hself hseats rfl⟩
      have hchair := h.chair
      rw [← hcell] at hchair
      cases hb : s.barber <;> rw [hb] at hchair hsleep <;>
        first
        | exact absurd rfl hsleep
        | simpa only [State.setClient, hb, ChairOk] using hchair
    · rename_i hfull
      obtain ⟨rfl, hholds⟩ := hpushed
      rcases hres with ⟨-, rfl, rfl⟩ | ⟨hres, -, -⟩
      · have hmove := Spec.move_refuse.mpr ⟨⟨hawake, hwants, hfull⟩, rfl⟩
        refine ⟨_, .refuse c, .inr (.inr rfl), rfl, hmove, h.ok, hlocks, halarm,
          ring_rest h.locks (by rw [hpc]; rfl) (by simp) hholds, ?_, ?_⟩
        · have hchair := h.chair
          rw [← hcell] at hchair
          exact hchair
        · rw [seatsTaken, Nat.add_zero] at hself
          exact State.forall_setClient
            (P := fun c cl => ClientOk (K.cutsNumber c) (t.cuts c) (t.seats.count c) cl)
            hself h.client
      · exact absurd rfl hres

/-! ## The steps of the barber -/

omit [DecidableEq ι] [Fintype ι] in
/-- An event leaves the clients where they are. -/
@[simp] theorem deliver_pc (pid : ι → ℤ) (e : Option Event) (c : ι) (cl : Client) :
    (deliver pid e c cl).pc = cl.pc := by
  unfold deliver
  split <;> rfl

/-- What the locks and the alarm say after a step of the barber. -/
theorem locks_alarm_barber (h : Rel v K s t) (hstep : startWork v s.mem s.barber = some (m, b, e)) :
    Locks (s.setBarber K.pid m b e).n m.semCheck m.semFifo b.holdsFifo ∧
    Alarm (s.setBarber K.pid m b e).n v m.semBarber m.semSlower b.stage (awakeAfter t.awake e) := by
  have hn : (s.setBarber K.pid m b e).n = s.n := by
    funext k
    simp [State.n, State.setBarber]
  rw [hn]
  exact ⟨locks_barber h.locks hstep, alarm_barber h.alarm h.locks hstep⟩

/-- A silent step of the barber outside `popFifo` does not touch the ring. -/
theorem startWork_silent {b₀ : BarberPc} {m₀ : Shared}
    (hstep : startWork v m₀ b₀ = some (m, b, none)) (hpop : ∀ p, b₀ ≠ .pop p) :
    m.fifo = m₀.fifo ∧ ((∀ p, b ≠ .pop p) ∨ b₀ = .waitFifo ∧ b = .pop .testEmpty) := by
  cases b₀ <;> simp only [startWork] at hstep
  case pop p => exact absurd rfl (hpop p)
  case waitBarber =>
    obtain ⟨x, -, hstep⟩ := Option.map_eq_some_iff.mp hstep
    cases hstep
    cases v <;> simp
  case waitFifoChair | waitFifo =>
    obtain ⟨x, -, hstep⟩ := Option.map_eq_some_iff.mp hstep
    cases hstep
    simp
  case sleep =>
    obtain ⟨x, -, hstep⟩ := Option.map_eq_some_iff.mp hstep
    cases hstep
  case cutChair | cut => cases hstep
  all_goals
    cases hstep
    simp

/-- **A silent step of the barber** outside `popFifo` is no move of the shop. -/
theorem rel_barber_silent (h : Rel v K s t)
    (hstep : startWork v s.mem s.barber = some (m, b, none)) (hpop : ∀ p, s.barber ≠ .pop p) :
    Rel v K (s.setBarber K.pid m b none) t := by
  obtain ⟨hlocks, halarm⟩ := locks_alarm_barber h hstep
  obtain ⟨hf, hb⟩ := startWork_silent hstep hpop
  refine ⟨h.ok, hlocks, halarm, ?_, ?_, h.client⟩
  · rcases hb with hb | ⟨hwait, rfl⟩
    · exact h.ring.congr hf (fun p => iff_of_false (hb p) (hpop p)) fun c p => Iff.rfl
    · -- the barber enters `popFifo`, alone
      have hout := hlocks.clients_out (s := s.setBarber K.pid m _ none) rfl
      have hnone : ∀ c p, (s.client c).pc ≠ .push p := fun c p hp => by
        have := hout c
        simp only [State.setBarber, deliver_pc, hp] at this
        cases this
      have hholds := h.ring.resting hpop hnone
      refine ⟨?_, fun c p hp => absurd hp (hnone c p),
        fun hne => absurd rfl (hne .testEmpty)⟩
      intro p hp
      cases hp
      rw [pop_finish, show (s.setBarber K.pid m _ none).mem.fifo = s.mem.fifo from hf]
      exact popFifo_holds hholds
  · have hchair := h.chair
    have halarm' := h.alarm
    rw [show (s.setBarber K.pid m b none).mem.fifo = s.mem.fifo from hf]
    cases hb₀ : s.barber <;> rw [hb₀] at hstep hchair halarm' <;> simp only [startWork] at hstep
    case pop p => exact absurd hb₀ (hpop p)
    case waitBarber =>
      obtain ⟨x, -, hstep⟩ := Option.map_eq_some_iff.mp hstep
      cases hstep
      cases v <;> exact hchair
    case waitFifoChair | waitFifo =>
      obtain ⟨x, -, hstep⟩ := Option.map_eq_some_iff.mp hstep
      cases hstep
      exact hchair
    case readChair =>
      cases hstep
      exact hchair halarm'.busy
    case sleep =>
      obtain ⟨x, -, hstep⟩ := Option.map_eq_some_iff.mp hstep
      cases hstep
    case cutChair | cut => cases hstep
    case postFifoSleep =>
      cases hstep
      intro hawake
      rw [show t.awake = false from hchair] at hawake
      cases hawake
    all_goals
      cases hstep
      exact hchair

/-- **A step of the barber inside `popFifo`**: the call goes on, returns `-1` for an empty
queue, or returns the pid of the first who waits, who is then next. -/
theorem rel_barber_pop (h : Rel v K s t) {p : PopPc} (hb₀ : s.barber = .pop p)
    (hstep : startWork v s.mem s.barber = some (m, b, e)) :
    e = none ∧ ((∃ p', b = .pop p') ∧ Rel v K (s.setBarber K.pid m b e) t ∨
      b = .sleep ∧ Rel v K (s.setBarber K.pid m b e) t ∨
      ∃ c t', b = .postFifo (K.pid c) ∧ t.move K .next = some t' ∧
        Rel v K (s.setBarber K.pid m b e) t') := by
  obtain ⟨hlocks, halarm⟩ := locks_alarm_barber h hstep
  have hchair := h.chair
  rw [hb₀] at hstep hchair
  have hout := h.locks.clients_out (by rw [hb₀]; rfl)
  have hnone : ∀ c p, (s.client c).pc ≠ .push p := fun c p hp => by
    have := hout c
    rw [hp] at this
    cases this
  have hpopped := h.ring.popping p hb₀
  simp only [startWork] at hstep
  split at hstep
  · rename_i f p' hpop
    cases hstep
    rw [Procedure.finish_of_call hpop] at hpopped
    refine ⟨rfl, .inl ⟨⟨p', rfl⟩, h.ok, hlocks, halarm, ?_, hchair, h.client⟩⟩
    refine ⟨?_, fun c p hp => absurd hp (hnone c p), fun hne => absurd rfl (hne p')⟩
    intro p'' hp
    cases hp
    exact hpopped
  · rename_i f toCut hpop
    cases hstep
    rw [Procedure.finish_of_return hpop] at hpopped
    -- the ring is at rest again, with the queue the call has left
    have hring : ∀ {b : BarberPc} {q : List ι}, f.Holds K.chairNumber (q.map K.pid) →
        (∀ p, b ≠ .pop p) → Ring K f b (fun c => (s.client c).pc) q := fun hholds hb =>
      ⟨fun p hp => absurd hp (hb p), fun c p hp => absurd hp (hnone c p), fun _ _ => hholds⟩
    cases hq : t.queue with
    | nil =>
      rw [hq] at hpopped
      obtain ⟨rfl, hholds⟩ := hpopped
      refine ⟨rfl, .inr (.inl ⟨rfl, h.ok, hlocks, halarm, ?_, ⟨hchair, hq⟩, h.client⟩)⟩
      rw [hq]
      exact hring hholds (by simp [State.setBarber])
    | cons c q =>
      rw [hq] at hpopped
      obtain ⟨rfl, hholds⟩ := hpopped
      have hpos := K.pid_pos c
      have hne : K.pid c ≠ -1 := by omega
      have hmove := Spec.move_next (K := K).mpr ⟨c, q, ⟨hchair, hq⟩, rfl⟩
      simp only [if_pos hne] at hlocks halarm ⊢
      refine ⟨trivial, .inr (.inr ⟨c, _, rfl, hmove, Spec.ok_move h.ok hmove, hlocks, halarm,
        hring hholds (by simp [State.setBarber]), ⟨c, rfl, rfl⟩, fun c' => ?_⟩)⟩
      have hseats : Spec.seats { t with chair := some c, queue := q } = t.seats := by
        simp [Spec.seats, show t.chair = none from hchair, hq]
      rw [hseats]
      exact h.client c'

omit [Fintype ι] in
/-- The accounts after the barber has cut `c`. -/
theorem clients_cut (h : ∀ c, ClientOk (K.cutsNumber c) (t.cuts c) (t.seats.count c) (s.client c))
    {c : ι} (hchair : t.chair = some c)
    (ht' : t' = { t with chair := none, cuts := Function.update t.cuts c (t.cuts c + 1) })
    (c' : ι) :
    ClientOk (K.cutsNumber c') (t'.cuts c') (t'.seats.count c')
      (deliver K.pid (some (.cut (K.pid c))) c' (s.client c')) := by
  have hseats : t.seats = c :: t'.seats := by
    subst ht'
    simp [Spec.seats, hchair]
  obtain ⟨cuts, seat, visiting, left⟩ := h c'
  rw [hseats] at seat
  subst ht'
  by_cases hc : c' = c
  · subst hc
    rw [List.count_cons_self] at seat
    simp only [deliver, if_true, Function.update_self]
    refine ⟨?_, ?_, visiting, left⟩
    · rw [← cuts, Nat.add_assoc]
    · rw [← seat, Nat.add_assoc, Nat.add_comm 1]
  · have hpid : ¬ K.pid c = K.pid c' := fun heq => hc (K.pid_injective heq).symm
    rw [List.count_cons_of_ne (Ne.symm hc)] at seat
    simp only [deliver, Option.some.injEq, Event.cut.injEq, hpid, if_false,
      Function.update_of_ne hc]
    exact ⟨cuts, seat, visiting, left⟩

/-- **A step of the barber that shows an event**: it cuts the one in the chair, or falls
asleep. -/
theorem rel_barber_event (h : Rel v K s t) {ev : Event}
    (hstep : startWork v s.mem s.barber = some (m, b, some ev)) :
    ∃ t' a, a.event K.pid = some ev ∧ t.move K a = some t' ∧
      Rel v K (s.setBarber K.pid m b (some ev)) t' := by
  obtain ⟨hlocks, halarm⟩ := locks_alarm_barber h hstep
  have hring := h.ring
  have hchair := h.chair
  have halarm₀ := h.alarm
  -- both calls of `cut` do the same
  have hcut : ∀ x, ev = .cut x → m = s.mem → b = .waitFifo → (∀ p, s.barber ≠ .pop p) →
      (∃ c, t.chair = some c ∧ x = K.pid c) → ∃ t' a, a.event K.pid = some ev ∧
        t.move K a = some t' ∧ Rel v K (s.setBarber K.pid m b (some ev)) t' := by
    rintro x rfl rfl rfl hpop ⟨c, hc, rfl⟩
    have hmove := Spec.move_cut (K := K).mpr ⟨hc, rfl⟩
    refine ⟨_, .cut c, rfl, hmove, Spec.ok_move h.ok hmove, hlocks, halarm, ?_, rfl,
      clients_cut h.client hc rfl⟩
    apply hring.congr rfl (fun p => iff_of_false (by simp [State.setBarber]) (hpop p))
    intro c' p
    simp [State.setBarber]
  cases hb : s.barber <;> rw [hb] at hstep hchair halarm₀ <;> simp only [startWork] at hstep
  case cutChair x | cut x =>
    cases hstep
    exact hcut x rfl rfl rfl (by simp [hb]) hchair
  case sleep =>
    obtain ⟨x, -, hstep⟩ := Option.map_eq_some_iff.mp hstep
    cases hstep
    have hmove := Spec.move_sleep (K := K).mpr ⟨⟨halarm₀.busy, hchair.1, hchair.2⟩, rfl⟩
    refine ⟨_, .sleep, rfl, hmove, Spec.ok_move h.ok hmove, hlocks, halarm, ?_, rfl, h.client⟩
    exact hring.congr rfl (fun p => iff_of_false (by simp [State.setBarber]) (by simp [hb]))
      fun c p => Iff.rfl
  case pop p => split at hstep <;> cases hstep
  case waitBarber | waitFifoChair | waitFifo =>
    obtain ⟨x, -, hstep⟩ := Option.map_eq_some_iff.mp hstep
    cases hstep
  all_goals cases hstep

/-! ## The simulation -/

/-- Nobody is inside when the program starts. -/
theorem rel_start (h : Start K s) : Rel v K s Spec.start := by
  have hpc : ∀ c, (s.client c).pc = .test := fun c => by rw [h.client c]
  have hn : ∀ k, k ≠ .outside → s.n k = 0 := fun k hk =>
    count_eq_zero fun c => by
      rw [hpc c]
      exact hk.symm
  obtain ⟨f, hf⟩ := h.fifo
  have hvalid := K.chairNumber_valid
  refine ⟨Spec.ok_start, ⟨?_, ?_⟩, ?_, ⟨?_, ?_, fun _ _ => ?_⟩, ?_, fun c => ?_⟩
  · simp [checkHolders, fifoHolders, hn, h.semCheck]
  · simp [fifoHolders, hn, h.semFifo, h.barber, BarberPc.holdsFifo]
  · cases v <;> constructor <;>
      simp [hn, h.semBarber, h.semSlower, h.barber, BarberPc.stage, Spec.start]
  · intro p hp
    rw [h.barber] at hp
    cases hp
  · intro c p hp
    rw [show (s.client c).pc = .test from hpc c] at hp
    cases hp
  · rw [hf]
    exact fifoInit_holds f (by omega)
  · rw [h.barber]
    intro hawake
    cases hawake
  · rw [h.client c]
    exact ⟨rfl, rfl, fun hvis => hvis.elim, fun hleft => by cases hleft⟩

/-- **What a step is**: no move, the move `next` of a barber inside `popFifo`, or the one
move that shows the event. -/
theorem rel_step {s' : State ι} (h : Rel v K s t) (hstep : (program v K).system.step s e s') :
    (e = none ∧ Rel v K s' t) ∨
    (∃ t', e = none ∧ (∃ p, s.barber = .pop p) ∧ t.move K .next = some t' ∧ Rel v K s' t') ∨
    ∃ ev t' a, e = some ev ∧ a.event K.pid = some ev ∧ t.move K a = some t' ∧ Rel v K s' t' := by
  rcases step_cases hstep with ⟨m, b, hbarber, rfl⟩ | ⟨c, m, cl, hclient, rfl⟩
  · by_cases hpop : ∃ p, s.barber = .pop p
    · obtain ⟨p, hp⟩ := hpop
      obtain ⟨rfl, hcases⟩ := rel_barber_pop h hp hbarber
      rcases hcases with ⟨-, hrel⟩ | ⟨-, hrel⟩ | ⟨c, t', -, hmove, hrel⟩
      · exact .inl ⟨rfl, hrel⟩
      · exact .inl ⟨rfl, hrel⟩
      · exact .inr (.inl ⟨t', rfl, ⟨p, hp⟩, hmove, hrel⟩)
    · cases e with
      | none => exact .inl ⟨rfl, rel_barber_silent h hbarber fun p hp => hpop ⟨p, hp⟩⟩
      | some ev =>
        obtain ⟨t', a, hevent, hmove, hrel⟩ := rel_barber_event h hbarber
        exact .inr (.inr ⟨ev, t', a, rfl, hevent, hmove, hrel⟩)
  · cases e with
    | none => exact .inl ⟨rfl, rel_client_silent h hclient⟩
    | some ev =>
      obtain ⟨t', a, -, hevent, hmove, hrel⟩ := rel_client_event h hclient
      exact .inr (.inr ⟨ev, t', a, rfl, hevent, hmove, hrel⟩)

/-- **Either program is a barber shop**: its steps are moves of the shop that show the same. -/
theorem simulation (v : Version) (K : Setting ι) :
    Simulation (program v K).system (Spec.machine K).system id (Move.event K.pid) (Rel v K) where
  init s h := ⟨Spec.start, rfl, rel_start h⟩
  step s t e s' h hstep := by
    rcases rel_step h hstep with ⟨rfl, hrel⟩ | ⟨t', rfl, -, hmove, hrel⟩ |
      ⟨ev, t', a, rfl, hevent, hmove, hrel⟩
    · exact ⟨[], t, .nil t, rfl, hrel⟩
    · exact ⟨[.next], t', .single (Spec.machine_step.mpr hmove), rfl, hrel⟩
    · refine ⟨[a], t', .single (Spec.machine_step.mpr hmove), ?_, hrel⟩
      simp [hevent]

end SystemyOperacyjne.BarberShop
