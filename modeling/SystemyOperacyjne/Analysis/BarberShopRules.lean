import SystemyOperacyjne.Analysis.BarberShopResults

/-!
# What an event says about those who wait

An observer who sees the events of a barber shop, of either program, knows who has a place and
has not been cut: those who took one, in that order, without as many as have been cut
(`waiting`), the client in the barber's chair among them. Each event is then possible only in
certain situations (`Event.Allowed`): a client is refused only when at least as many wait as there
are chairs, sits down only when at most as many do, and wakes the barber only when nobody waits;
the barber cuts the first in the line, and falls asleep when there is none.
-/

set_option autoImplicit false

namespace SystemyOperacyjne.BarberShop

open Library

/-- The pids that have a place and have not been signalled, in order. -/
def waiting (l : List (Option Event)) : List ℤ :=
  (pidsTaken l).drop (pidsCut l).length

/-- How often the barber has been woken, by a client that took the chair. -/
def wakes (l : List (Option Event)) : ℕ :=
  (l.filterMap id).countP fun e => e matches .wake _

/-- How often he has fallen asleep. -/
def sleeps (l : List (Option Event)) : ℕ :=
  (l.filterMap id).count .sleep

/-- The client with that pid wants another cut and has no place. -/
def Wanting {ι : Type} (K : Setting ι) (l : List (Option Event)) (pid : ℤ) : Prop :=
  pid ∉ waiting l ∧ ∃ c, K.pid c = pid ∧ (pidsCut l).count pid < K.cutsNumber c

/-- **When an event can be seen**, after what has been seen. With as many waiting as there are
chairs a client may sit down or be refused: it depends on whether one of them is in the barber's
chair already, which is not seen. -/
def Event.Allowed {ι : Type} (K : Setting ι) (l : List (Option Event)) : Event → Prop
  | .wake pid => wakes l = sleeps l ∧ waiting l = [] ∧ Wanting K l pid
  | .sit pid => wakes l = sleeps l + 1 ∧ (waiting l).length ≤ K.chairNumber ∧ Wanting K l pid
  | .refuse pid => wakes l = sleeps l + 1 ∧ K.chairNumber ≤ (waiting l).length ∧ Wanting K l pid
  | .cut pid => wakes l = sleeps l + 1 ∧ (waiting l).head? = some pid
  | .sleep => wakes l = sleeps l + 1 ∧ waiting l = []

namespace Spec

variable {ι : Type} [DecidableEq ι] {K : Setting ι} {t t' : Spec ι}

/-- The moves that wake the barber. -/
def wakings (l : List (Move ι)) : ℕ :=
  l.countP fun a => a matches .wake _

/-- He is awake when he has been woken once more than he has fallen asleep, and there are no
more in the line than chairs. -/
structure Awake (K : Setting ι) (l : List (Move ι)) (t : Spec ι) : Prop where
  turns : wakings l = l.count .sleep + if t.awake then 1 else 0
  chairs : t.queue.length ≤ K.chairNumber

/-- A move keeps what has been observed of the barber. -/
theorem awake_move {l : List (Move ι)} {a : Move ι} (h : Awake K l t)
    (hmove : t.move K a = some t') : Awake K (l ++ [a]) t' := by
  obtain ⟨turns, chairs⟩ := h
  simp only [wakings] at turns
  cases a with
  | wake c =>
    obtain ⟨⟨hawake, -⟩, rfl⟩ := move_wake.mp hmove
    rw [hawake] at turns
    constructor
    · simpa [wakings] using turns
    · exact chairs
  | sit c =>
    obtain ⟨⟨hawake, -, hlt⟩, rfl⟩ := move_sit.mp hmove
    constructor
    · simpa [wakings] using turns
    · simpa using Nat.succ_le_of_lt hlt
  | refuse c =>
    obtain ⟨-, rfl⟩ := move_refuse.mp hmove
    constructor
    · simpa [wakings] using turns
    · exact chairs
  | cut c =>
    obtain ⟨-, rfl⟩ := move_cut.mp hmove
    constructor
    · simpa [wakings] using turns
    · exact chairs
  | next =>
    obtain ⟨c, q, ⟨-, hqueue⟩, rfl⟩ := move_next.mp hmove
    constructor
    · simpa [wakings] using turns
    · rw [hqueue, List.length_cons] at chairs
      exact Nat.le_of_succ_le chairs
  | sleep =>
    obtain ⟨⟨hawake, -, -⟩, rfl⟩ := move_sleep.mp hmove
    rw [hawake] at turns
    constructor
    · simpa [wakings] using turns
    · exact chairs

/-- So does a run. -/
theorem awake_run {l : List (Move ι)} (h : (machine K).system.Run start l t) : Awake K l t := by
  apply h.history_induction
  · intro l t a t' hI hstep
    exact awake_move hI (machine_step.mp hstep)
  · exact ⟨rfl, Nat.zero_le _⟩

end Spec

variable {ι : Type} [Fintype ι] [DecidableEq ι] {v : Version} {K : Setting ι} {s₀ s : State ι}
  {l : List (Option Event)} {m : List (Move ι)} {t : Spec ι} {e : Event}

omit [Fintype ι] [DecidableEq ι] in
/-- The wakings that are observed are those of the moves. -/
theorem wakes_eq (h : m.filterMap (Move.event K.pid) = l.filterMap id) :
    wakes l = Spec.wakings m := by
  unfold wakes Spec.wakings
  rw [← h, List.countP_filterMap]
  apply List.countP_congr
  intro a _
  cases a <;> simp [Move.event]

omit [Fintype ι] in
/-- So are the times the barber falls asleep. -/
theorem sleeps_eq (h : m.filterMap (Move.event K.pid) = l.filterMap id) :
    sleeps l = m.count .sleep := by
  unfold sleeps
  rw [← h, List.count_filterMap, List.count_eq_countP]
  apply List.countP_congr
  intro a _
  cases a <;> simp [Move.event]

omit [Fintype ι] in
/-- Who waits, as the observer knows it, is who has a place in the shop. -/
theorem waiting_eq (h : m.filterMap (Move.event K.pid) = l.filterMap id)
    (hhistory : Spec.History m t) : waiting l = t.seats.map K.pid := by
  unfold waiting
  rw [pidsTaken_eq h, pidsCut_eq h, hhistory.order, List.map_append, List.drop_left]

omit [Fintype ι] in
/-- A client who wants a cut in the shop wants one for the observer. -/
theorem wanting_of_wants (h : m.filterMap (Move.event K.pid) = l.filterMap id)
    (hhistory : Spec.History m t) {c : ι} (hwants : t.Wants K c) : Wanting K l (K.pid c) := by
  constructor
  · rw [waiting_eq h hhistory, List.mem_map_of_injective K.pid_injective]
    exact hwants.1
  · refine ⟨c, rfl, ?_⟩
    rw [pidsCut_eq h, List.count_map_of_injective _ _ K.pid_injective, ← hhistory.cuts c]
    exact hwants.2

/-- The events of a run come from moves of a shop, and the last one from the last move. -/
theorem exists_moves (hinit : (program v K).system.init s₀)
    (hrun : (program v K).system.Run s₀ (l ++ [some e]) s) :
    ∃ m t a t', (Spec.machine K).system.Run Spec.start m t ∧ t.move K a = some t' ∧
      m.filterMap (Move.event K.pid) = l.filterMap id ∧ a.event K.pid = some e := by
  obtain ⟨moves, last, hm, hobs, -⟩ := (simulation v K).run (rel_start hinit) hrun
  rw [List.filterMap_append] at hobs
  obtain ⟨m, rest, rfl, hm₁, hrest⟩ := List.filterMap_eq_append_iff.mp hobs
  obtain ⟨quiet, a, after, rfl, hquiet, ha, -⟩ := List.filterMap_eq_cons_iff.mp hrest
  rw [← List.append_assoc] at hm
  obtain ⟨t, t', hbefore, hstep, -⟩ := hm.split
  refine ⟨m ++ quiet, t, a, t', hbefore, Spec.machine_step.mp hstep, ?_, ha⟩
  rw [List.filterMap_append, hm₁, List.filterMap_eq_nil_iff.mpr hquiet, List.append_nil]

/-- **The rules of service**, in both programs, for every run and each of its events: those who
wait are different and at most one more than there are chairs, and the event is allowed in that
situation.
SOURCE: cw07/zad1/barber.c:57-116, cw07/zad1/breeder.c:97-156, cw07/zad1/fifo.c:11-41,
cw07/zad2/barber.c:58-104, cw07/zad2/breeder.c:99-146 -/
theorem service_rules (v : Version) (K : Setting ι) (hinit : (program v K).system.init s₀)
    (hrun : (program v K).system.Run s₀ (l ++ [some e]) s) :
    (waiting l).Nodup ∧ (waiting l).length ≤ K.chairNumber + 1 ∧ e.Allowed K l := by
  obtain ⟨m, t, a, t', hm, hmove, hobs, ha⟩ := exists_moves hinit hrun
  obtain ⟨hhistory, hok⟩ := Spec.history_run hm
  obtain ⟨hturns, hchairs⟩ := Spec.awake_run hm
  have hwaiting := waiting_eq hobs hhistory
  have hlength : (waiting l).length = t.chair.toList.length + t.queue.length := by
    rw [hwaiting, List.length_map, Spec.seats, List.length_append]
  have hchair : t.chair.toList.length ≤ 1 := by
    cases t.chair <;> simp
  rw [← wakes_eq hobs, ← sleeps_eq hobs] at hturns
  refine ⟨?_, by omega, ?_⟩
  · rw [hwaiting]
    exact hok.nodup.map K.pid_injective
  · cases a with
    | wake c =>
      obtain ⟨⟨hawake, hwants⟩, -⟩ := Spec.move_wake.mp hmove
      obtain ⟨hnone, hnobody⟩ := hok.asleep hawake
      cases ha
      refine ⟨?_, ?_, wanting_of_wants hobs hhistory hwants⟩
      · simpa [hawake] using hturns
      · rw [hwaiting, Spec.seats, hnone, hnobody]
        rfl
    | sit c =>
      obtain ⟨⟨hawake, hwants, hfree⟩, -⟩ := Spec.move_sit.mp hmove
      cases ha
      refine ⟨?_, by omega, wanting_of_wants hobs hhistory hwants⟩
      simpa [hawake] using hturns
    | refuse c =>
      obtain ⟨⟨hawake, hwants, hfull⟩, -⟩ := Spec.move_refuse.mp hmove
      cases ha
      refine ⟨?_, by omega, wanting_of_wants hobs hhistory hwants⟩
      simpa [hawake] using hturns
    | cut c =>
      obtain ⟨hserved, -⟩ := Spec.move_cut.mp hmove
      have hawake : t.awake = true := by
        by_contra hasleep
        rw [(hok.asleep (by simpa using hasleep)).1] at hserved
        cases hserved
      cases ha
      constructor
      · simpa [hawake] using hturns
      · rw [hwaiting, Spec.seats, hserved]
        rfl
    | next => cases ha
    | sleep =>
      obtain ⟨⟨hawake, hnone, hnobody⟩, -⟩ := Spec.move_sleep.mp hmove
      cases ha
      constructor
      · simpa [hawake] using hturns
      · rw [hwaiting, Spec.seats, hnone, hnobody]
        rfl

/-- Two chairs to wait on, and four clients who want one cut each. -/
def fourClients : Setting (Bool × Bool) where
  chairNumber := 2
  cutsNumber _ := 1
  pid c := 1 + c.1.toInt + 2 * c.2.toInt
  chairNumber_valid h := by omega
  pid_pos c := by rcases c with ⟨_ | _, _ | _⟩ <;> decide
  pid_injective c c' := by revert c c'; decide

/-- The first client wakes the barber, two sit down, and the fourth is refused. -/
def refusedTurns : List (Choice (Bool × Bool)) :=
  List.replicate 9 (.client (false, false)) ++ List.replicate 16 (.client (true, false)) ++
    List.replicate 15 (.client (false, true)) ++ List.replicate 6 (.client (true, true))

/-- What is seen then in `cw07/zad1`. -/
def refused : List (Option Event) × State (Bool × Bool) :=
  ((program .sysV fourClients).exec (startState fourClients) refusedTurns).get (by decide +kernel)

/-- A client is refused while all chairs are taken. -/
theorem service_rules_refused :
    2 ≤ (waiting refused.1.dropLast).length ∧ Wanting fourClients refused.1.dropLast 4 := by
  have hrun : (program .sysV fourClients).system.Run (startState fourClients)
      (refused.1.dropLast ++ [some (.refuse 4)]) refused.2 := by
    have hlast : refused.1 = refused.1.dropLast ++ [some (.refuse 4)] := by decide +kernel
    rw [← hlast]
    unfold refused
    exact Machine.exec_run_get _
  obtain ⟨-, -, -, hlength, hwanting⟩ :=
    service_rules .sysV fourClients (start_startState fourClients) hrun
  exact ⟨hlength, hwanting⟩

end SystemyOperacyjne.BarberShop
