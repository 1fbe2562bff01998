import Mathlib.Algebra.Order.BigOperators.Group.Finset
import SystemyOperacyjne.Model.BarberShopSpec

/-!
# What holds in a barber shop

In a barber shop as its clients see it, those who took a place are, in this order, those
who have been cut, the one in the chair, and those who wait (`Spec.history_run`); nobody has
two places or more cuts than wanted (`Spec.Ok`); and from every state everybody can still get
all the cuts wanted (`Spec.can_close`).
-/

set_option autoImplicit false

namespace SystemyOperacyjne.BarberShop.Spec

open Library

variable {ι : Type} [DecidableEq ι] {K : Setting ι} {t t' : Spec ι}

omit [DecidableEq ι] in
/-- Those with a place are the one in the chair and those in the queue. -/
@[simp] theorem mem_seats {c : ι} : c ∈ t.seats ↔ t.chair = some c ∨ c ∈ t.queue := by
  simp [seats]

/-! ## What a move is -/

omit [DecidableEq ι] in
/-- A guarded move is made when its guard holds. -/
theorem guard_iff {p : Prop} [Decidable p] {x : Spec ι} :
    (if p then some x else none) = some t' ↔ p ∧ t' = x := by
  rw [Option.ite_none_right_eq_some, Option.some.injEq, eq_comm]

/-- When a client wakes the barber. -/
theorem move_wake {c : ι} : t.move K (.wake c) = some t' ↔
    (t.awake = false ∧ t.Wants K c) ∧ t' = { t with awake := true, chair := some c } :=
  guard_iff

/-- When a client takes a chair. -/
theorem move_sit {c : ι} : t.move K (.sit c) = some t' ↔
    (t.awake = true ∧ t.Wants K c ∧ t.queue.length < K.chairNumber) ∧
      t' = { t with queue := t.queue ++ [c] } :=
  guard_iff

/-- When a client is refused. -/
theorem move_refuse {c : ι} : t.move K (.refuse c) = some t' ↔
    (t.awake = true ∧ t.Wants K c ∧ ¬ t.queue.length < K.chairNumber) ∧ t' = t :=
  guard_iff

/-- When a client is cut. -/
theorem move_cut {c : ι} : t.move K (.cut c) = some t' ↔
    t.chair = some c ∧
      t' = { t with chair := none, cuts := Function.update t.cuts c (t.cuts c + 1) } :=
  guard_iff

/-- When the barber takes the next client. -/
theorem move_next : t.move K .next = some t' ↔
    ∃ c q, (t.chair = none ∧ t.queue = c :: q) ∧ t' = { t with chair := some c, queue := q } := by
  cases hchair : t.chair <;> cases hqueue : t.queue <;>
    simp [move, hchair, hqueue, eq_comm (b := t')]

/-- When the barber falls asleep. -/
theorem move_sleep : t.move K .sleep = some t' ↔
    (t.awake = true ∧ t.chair = none ∧ t.queue = []) ∧ t' = { t with awake := false } :=
  guard_iff

/-! ## The order of the cuts -/

/-- What the moves so far say about the state they led to. -/
structure History (l : List (Move ι)) (t : Spec ι) : Prop where
  order : l.filterMap Move.took = l.filterMap Move.served ++ t.seats
  cuts : ∀ c, t.cuts c = (l.filterMap Move.served).count c

/-- **One move**: whoever takes a place is last in the order, and whoever is cut is first. -/
theorem history_move {l : List (Move ι)} {a : Move ι} (h : History l t)
    (hmove : t.move K a = some t') (hasleep : t.awake = false → t.chair = none ∧ t.queue = []) :
    History (l ++ [a]) t' := by
  obtain ⟨order, cuts⟩ := h
  cases a with
  | wake c =>
    obtain ⟨⟨hawake, -⟩, rfl⟩ := move_wake.mp hmove
    obtain ⟨hchair, hqueue⟩ := hasleep hawake
    constructor
    · simp [List.filterMap_cons, Move.took, Move.served, order, seats, hchair, hqueue]
    · intro c'
      simp [List.filterMap_cons, Move.served, cuts c']
  | sit c =>
    obtain ⟨-, rfl⟩ := move_sit.mp hmove
    constructor
    · simp [List.filterMap_cons, Move.took, Move.served, order, seats]
    · intro c'
      simp [List.filterMap_cons, Move.served, cuts c']
  | refuse c =>
    obtain ⟨-, rfl⟩ := move_refuse.mp hmove
    constructor
    · simp [List.filterMap_cons, Move.took, Move.served, order]
    · intro c'
      simp [List.filterMap_cons, Move.served, cuts c']
  | cut c =>
    obtain ⟨hchair, rfl⟩ := move_cut.mp hmove
    constructor
    · simp [List.filterMap_cons, Move.took, Move.served, order, seats, hchair]
    · intro c'
      by_cases hc : c' = c
      · subst hc
        simp [Move.served, cuts]
      · have hne : ¬ c = c' := fun h => hc h.symm
        simp [Move.served, cuts, hc, hne]
  | next =>
    obtain ⟨c, q, ⟨hchair, hqueue⟩, rfl⟩ := move_next.mp hmove
    constructor
    · simp [List.filterMap_cons, Move.took, Move.served, order, seats, hchair, hqueue]
    · intro c'
      simp [List.filterMap_cons, Move.served, cuts c']
  | sleep =>
    obtain ⟨-, rfl⟩ := move_sleep.mp hmove
    constructor
    · simpa [List.filterMap_cons, Move.took, Move.served, seats] using order
    · intro c'
      simp [List.filterMap_cons, Move.served, cuts c']

/-! ## Nobody has two places or too many cuts -/

/-- What holds in every state of a shop. -/
structure Ok (K : Setting ι) (t : Spec ι) : Prop where
  asleep : t.awake = false → t.chair = none ∧ t.queue = []
  nodup : t.seats.Nodup
  cuts : ∀ c, t.cuts c + t.seats.count c ≤ K.cutsNumber c

/-- All is well in the beginning. -/
theorem ok_start : Ok K (start : Spec ι) :=
  ⟨fun _ => ⟨rfl, rfl⟩, List.nodup_nil, fun _ => Nat.zero_le _⟩

/-- A move that seats `c`, who wants a cut, at the end. -/
theorem ok_seat {c : ι} (h : Ok K t) (hwants : t.Wants K c) (hawake : t'.awake = true)
    (hseats : t'.seats = t.seats ++ [c]) (hcuts : t'.cuts = t.cuts) : Ok K t' := by
  obtain ⟨hnot, hlt⟩ := hwants
  refine ⟨?_, ?_, ?_⟩
  · intro hasleep
    rw [hawake] at hasleep
    cases hasleep
  · rw [hseats]
    exact h.nodup.append (List.nodup_singleton c) (by simpa using hnot)
  · intro c'
    rw [hseats, hcuts, List.count_append, List.count_singleton]
    have hold := h.cuts c'
    by_cases hc : c = c'
    · subst hc
      have hzero := List.count_eq_zero.mpr hnot
      simp only [BEq.rfl, if_true]
      omega
    · simp only [beq_iff_eq, hc, if_false]
      omega

/-- **Every move keeps the shop in order.** -/
theorem ok_move {a : Move ι} (h : Ok K t) (hmove : t.move K a = some t') : Ok K t' := by
  cases a with
  | wake c =>
    obtain ⟨⟨hawake, hwants⟩, rfl⟩ := move_wake.mp hmove
    obtain ⟨hchair, hqueue⟩ := h.asleep hawake
    exact ok_seat h hwants rfl (by simp [seats, hchair, hqueue]) rfl
  | sit c =>
    obtain ⟨⟨hawake, hwants, -⟩, rfl⟩ := move_sit.mp hmove
    exact ok_seat h hwants hawake (by simp [seats]) rfl
  | refuse c =>
    obtain ⟨-, rfl⟩ := move_refuse.mp hmove
    exact h
  | cut c =>
    obtain ⟨hchair, rfl⟩ := move_cut.mp hmove
    have hseats : t.seats = c :: t.queue := by simp [seats, hchair]
    obtain ⟨asleep, nodup, cuts⟩ := h
    rw [hseats] at nodup cuts
    refine ⟨?_, (List.nodup_cons.mp nodup).2, ?_⟩
    · intro hasleep
      exact ⟨rfl, (asleep hasleep).2⟩
    · intro c'
      have hold := cuts c'
      by_cases hc : c' = c
      · subst hc
        rw [List.count_cons_self] at hold
        simp only [seats, Option.toList_none, List.nil_append, Function.update_self]
        omega
      · rw [List.count_cons_of_ne (Ne.symm hc)] at hold
        simpa [seats, Function.update_of_ne hc] using hold
  | next =>
    obtain ⟨c, q, ⟨hchair, hqueue⟩, rfl⟩ := move_next.mp hmove
    have hseats : t.seats = c :: q := by simp [seats, hchair, hqueue]
    obtain ⟨asleep, nodup, cuts⟩ := h
    rw [hseats] at nodup cuts
    refine ⟨?_, nodup, cuts⟩
    intro hasleep
    have := (asleep hasleep).2
    rw [hqueue] at this
    cases this
  | sleep =>
    obtain ⟨⟨-, hchair, hqueue⟩, rfl⟩ := move_sleep.mp hmove
    exact ⟨fun _ => ⟨hchair, hqueue⟩, h.nodup, h.cuts⟩

/-- **The history of a run**: those who took a place are those who were cut, followed by
those who have a place, and everybody has been cut as often as `cuts` says. -/
theorem history_run {l : List (Move ι)} (h : (machine K).system.Run start l t) :
    History l t ∧ Ok K t := by
  refine h.history_induction (I := fun l t => History l t ∧ Ok K t) ?_
    ⟨⟨rfl, fun _ => rfl⟩, ok_start⟩
  rintro l t a t' ⟨hhist, hok⟩ hstep
  have hmove := machine_step.mp hstep
  exact ⟨history_move hhist hmove hok.asleep, ok_move hok hmove⟩

/-! ## Everybody can get all the cuts wanted -/

/-- The shop is closed: everybody has all the cuts wanted, and the barber sleeps. -/
structure Closed (K : Setting ι) (t : Spec ι) : Prop where
  asleep : t.awake = false
  cuts : ∀ c, t.cuts c = K.cutsNumber c

variable [Fintype ι]

/-- A bound on the moves left to the barber. -/
def rank (K : Setting ι) (t : Spec ι) : ℕ :=
  4 * (∑ c, (K.cutsNumber c - t.cuts c)) + t.queue.length +
    if t.awake then (if t.chair.isSome then 1 else 3) else 2

/-- In every state but the closed one the barber, or a client who wakes the barber, has a
move that brings the shop closer to it. -/
theorem exists_move (h : Ok K t) (hopen : ¬ Closed K t) :
    ∃ a t', t.move K a = some t' ∧ rank K t' < rank K t := by
  cases hawake : t.awake with
  | false =>
    obtain ⟨hchair, hqueue⟩ := h.asleep hawake
    obtain ⟨c, hc⟩ : ∃ c, t.cuts c < K.cutsNumber c := by
      by_contra hall
      push Not at hall
      refine hopen ⟨hawake, fun c => le_antisymm ?_ (hall c)⟩
      have := h.cuts c
      omega
    refine ⟨.wake c, _, move_wake.mpr ⟨⟨hawake, by simp [hchair, hqueue], hc⟩, rfl⟩, ?_⟩
    simp [rank, hawake]
  | true =>
    cases hchair : t.chair with
    | some c =>
      refine ⟨.cut c, _, move_cut.mpr ⟨hchair, rfl⟩, ?_⟩
      have hpos : t.cuts c < K.cutsNumber c := by
        have := h.cuts c
        have hin : 0 < t.seats.count c := List.count_pos_iff.mpr (by simp [hchair])
        omega
      have hsum : ∑ i, (K.cutsNumber i - Function.update t.cuts c (t.cuts c + 1) i) <
          ∑ i, (K.cutsNumber i - t.cuts i) := by
        refine Finset.sum_lt_sum (?_) ⟨c, Finset.mem_univ c, ?_⟩
        · intro i _
          by_cases hi : i = c
          · subst hi
            rw [Function.update_self]
            omega
          · rw [Function.update_of_ne hi]
        · rw [Function.update_self]
          omega
      simp only [rank, hawake, hchair, if_true, Option.isSome_some, Option.isSome_none]
      simp only [Bool.false_eq_true, if_false]
      omega
    | none =>
      cases hqueue : t.queue with
      | nil =>
        refine ⟨.sleep, _, move_sleep.mpr ⟨⟨hawake, hchair, hqueue⟩, rfl⟩, ?_⟩
        simp [rank, hawake, hchair]
      | cons c q =>
        refine ⟨.next, _, move_next.mpr ⟨c, q, ⟨hchair, hqueue⟩, rfl⟩, ?_⟩
        simp [rank, hawake, hchair, hqueue]
        omega

/-- **From every state the shop can close.** -/
theorem can_close (h : Ok K t) :
    ∃ l t', (machine K).system.Run t l t' ∧ Closed K t' ∧ Ok K t' := by
  obtain ⟨l, t', hrun, -, hclosed, hok⟩ := System.drain (T := (machine K).system)
    (fun _ => True) (rank K)
    (fun t h hopen => by
      obtain ⟨a, t', hmove, hlt⟩ := exists_move h hopen
      exact ⟨a, t', machine_step.mpr hmove, trivial, ok_move h hmove, hlt⟩) h
  exact ⟨l, t', hrun, hclosed, hok⟩

end SystemyOperacyjne.BarberShop.Spec
