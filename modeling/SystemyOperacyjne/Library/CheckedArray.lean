import Mathlib.Data.Nat.Notation
import Mathlib.Data.Int.Notation
import Mathlib.Tactic.ByContra
import Mathlib.Tactic.TypeStar

/-!
# Arrays with checked accesses

A C array of `n` cells is a `Vector`, and the two accesses to it, `load` and `store`, are
checked: at an index outside the array they fail, with whatever error the program modelled
gives to an access that C leaves undefined. `bind_eq_ok_iff` takes a sequence of such
accesses apart. `Within` says of a whole computation that it makes no such access, with a
postcondition; its rules follow the computation's structure.
-/

set_option autoImplicit false

namespace SystemyOperacyjne.Library

universe u

variable {α β : Type u} {ε : Type*} {n : ℕ}

/-- A sequence of two computations succeeds when both do. -/
theorem bind_eq_ok_iff {x : Except ε α} {f : α → Except ε β} {b : β} :
    (x >>= f) = .ok b ↔ ∃ a, x = .ok a ∧ f a = .ok b := by
  constructor
  · intro h
    cases x with
    | error e => cases h
    | ok a => exact ⟨a, rfl, h⟩
  · rintro ⟨a, rfl, h⟩
    exact h

/-- Applying a function to the result succeeds when the computation does. -/
theorem map_eq_ok_iff {x : Except ε α} {f : α → β} {b : β} :
    x.map f = .ok b ↔ ∃ a, x = .ok a ∧ f a = b := by
  cases x with
  | error e => simp [Except.map]
  | ok a => simp [Except.map]

/-- One more step of a sequence of computations, each on the result of the one before. -/
theorem foldlM_take_succ {f : α → β → Except ε α} {l : List β} {k : ℕ} {b : β}
    (h : l[k]? = some b) (s : α) :
    (l.take (k + 1)).foldlM f s = (l.take k).foldlM f s >>= fun t => f t b := by
  rw [List.take_add_one, h, List.foldlM_append]
  cases List.foldlM f s (l.take k) with
  | error e => rfl
  | ok t =>
    show (f t b >>= fun t => pure t) = f t b
    exact bind_pure _

/-- Read the cell at `i`. -/
def load (e : ε) (a : Vector α n) (i : ℤ) : Except ε α :=
  if h : 0 ≤ i ∧ i < n then .ok (a.get ⟨i.toNat, by omega⟩) else .error e

/-- Write `x` into the cell at `i`. -/
def store (e : ε) (a : Vector α n) (i : ℤ) (x : α) : Except ε (Vector α n) :=
  if h : 0 ≤ i ∧ i < n then .ok (a.set i.toNat x (by omega)) else .error e

variable (e : ε) (a : Vector α n)

/-- A read gives `x` exactly where the array has a cell, and `x` is in it. -/
theorem load_eq_ok_iff {i : ℕ} {x : α} : load e a i = .ok x ↔ a[i]? = some x := by
  unfold load
  by_cases h : i < n
  · rw [dif_pos ⟨by omega, by omega⟩, Vector.getElem?_eq_getElem h]
    rw [Except.ok.injEq, Option.some.injEq]
    rfl
  · rw [dif_neg (by omega), Vector.getElem?_eq_none (by omega)]
    simp

/-- Within the bounds a store succeeds. -/
theorem store_of_lt {i : ℕ} (h : i < n) (x : α) : store e a i x = .ok (a.set i x) := by
  unfold store
  rw [dif_pos ⟨by omega, by omega⟩]
  simp

/-- Only a write within the array succeeds. -/
theorem store_ok {i : ℕ} {x : α} {b : Vector α n} (h : store e a i x = .ok b) :
    ∃ hi : i < n, b = a.set i x := by
  by_cases hi : i < n
  · rw [store_of_lt e a hi x] at h
    exact ⟨hi, (Except.ok.inj h).symm⟩
  · unfold store at h
    rw [dif_neg (by omega)] at h
    cases h

/-- Writing a cell's own contents changes nothing. -/
theorem store_self {i : ℕ} {x : α} (h : a[i]? = some x) : store e a i x = .ok a := by
  have hi : i < n := by
    by_contra hi
    rw [Vector.getElem?_eq_none (by omega)] at h
    cases h
  rw [store_of_lt e a hi x]
  rw [Vector.getElem?_eq_getElem hi] at h
  rw [← Option.some.inj h, Vector.set_getElem_self]

/-- Within the bounds a load succeeds. -/
theorem load_of_lt {i : ℕ} (h : i < n) : load e a i = .ok a[i] :=
  (load_eq_ok_iff e a).mpr (Vector.getElem?_eq_getElem h)

/-- An access succeeds at the indices of the array's cells only. -/
theorem exists_load_iff {i : ℤ} : (∃ x, load e a i = .ok x) ↔ 0 ≤ i ∧ i < n := by
  unfold load
  by_cases h : 0 ≤ i ∧ i < n
  · rw [dif_pos h]
    exact iff_of_true ⟨_, rfl⟩ h
  · rw [dif_neg h]
    apply iff_of_false
    · rintro ⟨x, hx⟩
      cases hx
    · exact h

/-- **A store succeeds** exactly within the bounds. -/
theorem exists_store_iff {i : ℤ} (x : α) :
    (∃ b, store e a i x = .ok b) ↔ 0 ≤ i ∧ i < n := by
  unfold store
  by_cases h : 0 ≤ i ∧ i < n
  · rw [dif_pos h]
    exact iff_of_true ⟨_, rfl⟩ h
  · rw [dif_neg h]
    apply iff_of_false
    · rintro ⟨b, hb⟩
      cases hb
    · exact h

/-! ## Computations that stay within their arrays -/

/-- The computation makes no access outside an array, and what it returns satisfies `Q`. It may
end in any other error. -/
def Within (e : ε) (x : Except ε α) (Q : α → Prop) : Prop :=
  x ≠ .error e ∧ ∀ b, x = .ok b → Q b

variable {e a} {P Q : α → Prop}

/-- A result has what is promised of it. -/
theorem Within.post {x : Except ε α} (h : Within e x Q) {b : α} (hb : x = .ok b) : Q b :=
  h.2 b hb

/-- A result that has it is enough. -/
theorem Within.ok {b : α} (h : Q b) : Within e (.ok b) Q := by
  constructor
  · intro hb
    cases hb
  · intro c hc
    cases hc
    exact h

/-- Less may be promised. -/
theorem Within.mono {x : Except ε α} (h : Within e x P) (hPQ : ∀ b, P b → Q b) : Within e x Q :=
  ⟨h.1, fun b hb => hPQ b (h.post hb)⟩

/-- The program ends in an error of its own. -/
theorem Within.error {e' : ε} (h : e' ≠ e) : Within e (.error e') Q := by
  constructor
  · intro heq
    exact h (Except.error.inj heq)
  · intro c hc
    cases hc

/-- **Sequencing**: the postcondition of the first computation is the precondition of the
second. -/
theorem Within.bind {x : Except ε α} {f : α → Except ε β} {R : β → Prop}
    (hx : Within e x P) (hf : ∀ b, P b → Within e (f b) R) : Within e (x >>= f) R := by
  cases x with
  | error e' => exact .error fun heq => hx.1 (congrArg Except.error heq)
  | ok b => exact hf b (hx.post rfl)

/-- A read within the array. -/
theorem Within.load {i : ℕ} (h : i < n) : Within e (load e a i) fun x => a[i]? = some x := by
  rw [load_of_lt e a h]
  exact .ok (Vector.getElem?_eq_getElem h)

/-- A write within the array. -/
theorem Within.store {i : ℕ} (h : i < n) (x : α) :
    Within e (store e a i x) fun b => b = a.set i x := by
  rw [store_of_lt e a h x]
  exact .ok rfl

end SystemyOperacyjne.Library
