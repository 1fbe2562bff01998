import SystemyOperacyjne.Model.BarberShop

/-!
# What a barber shop is for

The purpose of the two programs, with no semaphore and no ring: a barber who is awake or
asleep, at most one client in the chair, the clients who wait in the order in which they
came, and how often each client has been cut. The clients who took a place are cut in the
order in which they took it; nobody is sent away while there is a place.
-/

set_option autoImplicit false

namespace SystemyOperacyjne.BarberShop

open Library

/-- A barber shop as its clients see it. -/
structure Spec (ι : Type) where
  awake : Bool
  chair : Option ι
  queue : List ι
  cuts : ι → ℕ

/-- What can happen in a barber shop. -/
inductive Move (ι : Type)
  | wake (c : ι)  -- `c` wakes the barber and takes the chair
  | sit (c : ι)  -- `c` sits down to wait
  | refuse (c : ι)  -- `c` finds no place
  | cut (c : ι)  -- the barber cuts `c`
  | next  -- the barber calls the first who waits
  | sleep  -- nobody waits, and the barber falls asleep
  deriving DecidableEq, Repr

/-- What is seen of a move. -/
def Move.event {ι : Type} (pid : ι → ℤ) : Move ι → Option Event
  | .wake c => some (.wake (pid c))
  | .sit c => some (.sit (pid c))
  | .refuse c => some (.refuse (pid c))
  | .cut c => some (.cut (pid c))
  | .next => none
  | .sleep => some .sleep

/-- Who takes a place by a move. -/
def Move.took {ι : Type} : Move ι → Option ι
  | .wake c | .sit c => some c
  | .refuse _ | .cut _ | .next | .sleep => none

/-- Who is cut by a move. -/
def Move.served {ι : Type} : Move ι → Option ι
  | .cut c => some c
  | .wake _ | .sit _ | .refuse _ | .next | .sleep => none

namespace Spec

variable {ι : Type}

/-- Everybody who has a place and has not been cut, in the order of the cuts. -/
def seats (t : Spec ι) : List ι :=
  t.chair.toList ++ t.queue

/-- `c` has no place and wants another cut. -/
def Wants (K : Setting ι) (t : Spec ι) (c : ι) : Prop :=
  c ∉ t.seats ∧ t.cuts c < K.cutsNumber c

variable [DecidableEq ι]

instance (K : Setting ι) (t : Spec ι) (c : ι) : Decidable (t.Wants K c) :=
  inferInstanceAs (Decidable (_ ∧ _))

/-- One move, where it is possible. -/
def move (K : Setting ι) (t : Spec ι) : Move ι → Option (Spec ι)
  | .wake c =>
    if t.awake = false ∧ t.Wants K c then some { t with awake := true, chair := some c } else none
  | .sit c =>
    if t.awake = true ∧ t.Wants K c ∧ t.queue.length < K.chairNumber then
      some { t with queue := t.queue ++ [c] }
    else none
  | .refuse c =>
    if t.awake = true ∧ t.Wants K c ∧ ¬ t.queue.length < K.chairNumber then some t else none
  | .cut c =>
    if t.chair = some c then
      some { t with chair := none, cuts := Function.update t.cuts c (t.cuts c + 1) }
    else none
  | .next =>
    match t.chair, t.queue with
    | none, c :: q => some { t with chair := some c, queue := q }
    | _, _ => none
  | .sleep =>
    if t.awake = true ∧ t.chair = none ∧ t.queue = [] then some { t with awake := false } else none

/-- The empty shop: everybody is asleep or outside. -/
def start : Spec ι where
  awake := false
  chair := none
  queue := []
  cuts _ := 0

/-- All the moves of a shop, from the empty one on. -/
def machine (K : Setting ι) : Machine (Spec ι) (Move ι) (Move ι) where
  init t := t = start
  next t a := (t.move K a).map fun t' => (a, t')

/-- The steps of the shop are its moves. -/
theorem machine_step {K : Setting ι} {t t' : Spec ι} {a : Move ι} :
    (machine K).system.step t a t' ↔ t.move K a = some t' := by
  simp only [Machine.system, machine, Option.map_eq_some_iff, Prod.mk.injEq]
  refine ⟨?_, fun h => ⟨a, t', h, rfl, rfl⟩⟩
  rintro ⟨_, t'', h, rfl, rfl⟩
  exact h

end Spec

end SystemyOperacyjne.BarberShop
