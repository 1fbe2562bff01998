import Mathlib.Tactic.Linarith
import SystemyOperacyjne.Model.Fifo

/-!
# The ring buffer is a bounded queue

`Fifo.Holds N f q` says that the ring `f` of `N` places holds the pids `q`, first to be
popped first. `popFifo` takes the head of `q` (`popFifo_holds`), `pushFifo` appends to `q`
while there is a place (`pushFifo_holds`), and the calls taken access by access end the
same way (`pop_finish`, `push_finish`).
-/

set_option autoImplicit false

namespace SystemyOperacyjne.BarberShop

open Library

/-- The place `i` places behind place `h` on a ring of `N`; one wrap is enough. -/
def slot (N h i : ℤ) : ℤ :=
  if h + i < N then h + i else h + i - N

/-- A place behind a place on the ring is on the ring. -/
theorem slot_mem {N h i : ℤ} (h0 : 0 ≤ h) (hlt : h < N) (hi : 0 ≤ i) (hle : i ≤ N) :
    0 ≤ slot N h i ∧ slot N h i < N := by
  unfold slot
  split <;> omega

/-- One place on, and `i` places from there. -/
theorem slot_one {N h i : ℤ} (hlt : h < N) (hi : 0 ≤ i) (hiN : i < N) :
    slot N (slot N h 1) i = slot N h (i + 1) := by
  unfold slot
  split_ifs <;> omega

/-- Fewer than `N` places on, the ring does not meet itself. -/
theorem slot_injective {N h i j : ℤ} (hij : i < j) (hlt : j < N + i) :
    slot N h i ≠ slot N h j := by
  unfold slot
  split_ifs <;> omega

/-- **The ring holds the queue `q`**. Every place in use is below `N`. -/
structure Fifo.Holds (N : ℕ) (f : Fifo) (q : List ℤ) : Prop where
  max : f.max = N
  tail_nonneg : 0 ≤ f.tail
  tail_lt : f.tail < N
  fits : q.length ≤ N
  empty : q = [] → f.head = -1
  head : q ≠ [] → 0 ≤ f.head ∧ f.head < N ∧ f.tail = slot N f.head q.length
  cells : ∀ i (h : i < q.length), f.tab (slot N f.head i) = q[i]

variable {N : ℕ} {f : Fifo} {q : List ℤ}

/-- The initialised ring is empty. -/
theorem fifoInit_holds (f : Fifo) (hN : 0 < N) : (fifoInit f N).Holds N [] where
  max := rfl
  tail_nonneg := le_refl 0
  tail_lt := Int.natCast_pos.mpr hN
  fits := Nat.zero_le N
  empty _ := rfl
  head h := absurd rfl h
  cells i h := absurd h (Nat.not_lt_zero i)

namespace Fifo.Holds

/-- The ring is empty exactly when nobody waits. -/
theorem isEmptyFifo_iff (h : f.Holds N q) : isEmptyFifo f = true ↔ q = [] := by
  unfold isEmptyFifo
  rw [decide_eq_true_iff]
  refine ⟨?_, h.empty⟩
  intro hhead
  by_contra hne
  have := (h.head hne).1
  omega

/-- The ring is full exactly when every place is taken. -/
theorem isFullFifo_iff (h : f.Holds N q) : isFullFifo f = true ↔ q.length = N := by
  unfold isFullFifo
  rw [decide_eq_true_iff]
  have htail := h.tail_lt
  have hnonneg := h.tail_nonneg
  have hfits := h.fits
  by_cases hq : q = []
  · have hhead := h.empty hq
    rw [hq, List.length_nil]
    omega
  · obtain ⟨h0, hlt, hslot⟩ := h.head hq
    have hpos := List.length_pos_iff.mpr hq
    unfold slot at hslot
    split at hslot <;> omega

end Fifo.Holds

/-- What a pop from the queue `q` leaves and returns. -/
def Popped (N : ℕ) : List ℤ → Fifo × ℤ → Prop
  | [], (f, r) => r = -1 ∧ f.Holds N []
  | x :: q, (f, r) => r = x ∧ f.Holds N q

/-- What a push of `x` behind the queue `q` leaves and returns. -/
def Pushed (N : ℕ) (q : List ℤ) (x : ℤ) : Fifo × ℤ → Prop
  | (f, r) => if q.length < N then r = 0 ∧ f.Holds N (q ++ [x]) else r = -1 ∧ f.Holds N q

/-- **`popFifo` takes the head of the queue.** -/
theorem popFifo_holds (h : f.Holds N q) : Popped N q (popFifo f) := by
  cases q with
  | nil =>
    rw [popFifo, if_pos (h.isEmptyFifo_iff.mpr rfl)]
    exact ⟨rfl, h⟩
  | cons x q =>
    have hne : ¬ isEmptyFifo f = true := fun hempty => by
      cases h.isEmptyFifo_iff.mp hempty
    obtain ⟨h0, hlt, hslot⟩ := h.head (by simp)
    have hfits := h.fits
    have hfirst : f.tab f.head = x := by
      have := h.cells 0 (by simp)
      rwa [slot, Int.natCast_zero, add_zero, if_pos hlt] at this
    simp only [List.length_cons, Nat.cast_add, Nat.cast_one] at hfits hslot
    -- the head moves on by one place, and is cleared when it meets the tail
    have hstep : popFifo f =
        ({ f with chair := x,
                  head := if slot N f.head 1 = f.tail then -1 else slot N f.head 1 }, x) := by
      have hmove : slot N f.head 1 = if f.head + 1 = N then 0 else f.head + 1 := by
        unfold slot
        split_ifs <;> omega
      rw [popFifo, if_neg hne, hfirst, h.max, hmove]
      by_cases hwrap : f.head + 1 = N
      · simp only [hwrap, if_true]
        by_cases hmeet : (0 : ℤ) = f.tail <;> simp [hmeet]
      · simp only [hwrap, if_false]
        by_cases hmeet : f.head + 1 = f.tail <;> simp [hmeet]
    rw [hstep]
    rw [← slot_one hlt (Int.natCast_nonneg _) (by omega)] at hslot
    have hmem := slot_mem h0 hlt (i := 1) (by omega) (by omega)
    have hmeet : q ≠ [] → slot N f.head 1 ≠ f.tail := fun hq => by
      have hpos := List.length_pos_iff.mpr hq
      have := slot_injective (N := N) (h := slot N f.head 1) (i := 0) (j := q.length)
        (by omega) (by omega)
      rwa [← hslot, slot, add_zero, if_pos hmem.2] at this
    refine ⟨rfl, h.max, h.tail_nonneg, h.tail_lt, by omega, ?_, ?_, ?_⟩
    · rintro rfl
      rw [List.length_nil, Int.natCast_zero, slot, add_zero, if_pos hmem.2] at hslot
      exact if_pos hslot.symm
    · intro hq
      simp only [if_neg (hmeet hq)]
      exact ⟨hmem.1, hmem.2, hslot⟩
    · intro i hi
      have hq : q ≠ [] := by
        rintro rfl
        exact Nat.not_lt_zero i hi
      have hcell := h.cells (i + 1) (by simpa using hi)
      rw [List.getElem_cons_succ] at hcell
      simp only [if_neg (hmeet hq)]
      rw [slot_one hlt (Int.natCast_nonneg i) (by omega), ← hcell, Nat.cast_add, Nat.cast_one]

/-- **`pushFifo` appends to the queue, while there is a place.** -/
theorem pushFifo_holds (h : f.Holds N q) (x : ℤ) : Pushed N q x (pushFifo f x) := by
  have hfits := h.fits
  by_cases hfull : q.length = N
  · rw [pushFifo, if_pos (h.isFullFifo_iff.mpr hfull), Pushed, if_neg (by omega)]
    exact ⟨rfl, h⟩
  · -- an empty ring starts where its tail was
    obtain ⟨head, hhead, h0, hlt, hslot⟩ :
        ∃ head, head = (if isEmptyFifo f then f.tail else f.head) ∧
          0 ≤ head ∧ head < N ∧ f.tail = slot N head q.length := by
      refine ⟨_, rfl, ?_⟩
      by_cases hq : q = []
      · rw [if_pos (h.isEmptyFifo_iff.mpr hq), hq]
        refine ⟨h.tail_nonneg, h.tail_lt, ?_⟩
        rw [slot, List.length_nil, Int.natCast_zero, add_zero, if_pos h.tail_lt]
      · rw [if_neg (fun hf => hq (h.isEmptyFifo_iff.mp hf))]
        exact h.head hq
    have hstep : pushFifo f x =
        ({ f with head := head, tab := Function.update f.tab f.tail x,
                  tail := slot N head (q.length + 1) }, 0) := by
      have hmove : slot N head (q.length + 1) = if f.tail + 1 = N then 0 else f.tail + 1 := by
        unfold slot at hslot ⊢
        split_ifs at hslot ⊢ <;> omega
      rw [pushFifo, if_neg (fun hf => hfull (h.isFullFifo_iff.mp hf)), hmove, hhead]
      by_cases hempty : isEmptyFifo f = true <;> by_cases hwrap : f.tail + 1 = N <;>
        simp [hempty, hwrap, h.max]
    rw [hstep, Pushed, if_pos (by omega)]
    have hmem := slot_mem h0 hlt (i := q.length + 1) (by omega) (by omega)
    refine ⟨rfl, h.max, hmem.1, hmem.2, ?_, ?_, ?_, ?_⟩
    · rw [List.length_append, List.length_singleton]
      omega
    · intro hnil
      simp at hnil
    · intro _
      refine ⟨h0, hlt, ?_⟩
      rw [List.length_append, List.length_singleton, Nat.cast_add, Nat.cast_one]
    · intro i hi
      rw [List.length_append, List.length_singleton] at hi
      by_cases hlast : i < q.length
      · have hcell := h.cells i hlast
        have hother : slot N head i ≠ f.tail := by
          rw [hslot]
          exact slot_injective (by omega) (by omega)
        have hsame : head = f.head := by
          rw [hhead, if_neg (fun hf => ?_)]
          rw [h.isEmptyFifo_iff.mp hf] at hlast
          exact Nat.not_lt_zero i hlast
        rw [List.getElem_append_left hlast, ← hcell, ← hsame]
        exact Function.update_of_ne hother ..
      · have hi' : i = q.length := by omega
        subst hi'
        rw [List.getElem_append_right (le_refl _), ← hslot]
        simp

/-! ## The calls, access by access -/

/-- The last test of `popFifo`, access by access. -/
theorem pop_finish_tail (f : Fifo) :
    pop.finish f .readHeadTail =
      let f' := if f.head = f.tail then { f with head := -1 } else f
      (f', f'.chair) := by
  apply (Procedure.finish_of_call rfl).trans
  by_cases hmeet : f.head = f.tail
  · have hstep : popStep f (.readTail f.head) = (f, .inl .clearHead) := by
      rw [popStep, if_pos hmeet]
    apply (Procedure.finish_of_call hstep).trans
    apply (Procedure.finish_of_call rfl).trans
    apply (Procedure.finish_of_return rfl).trans
    simp only [hmeet, if_true]
  · have hstep : popStep f (.readTail f.head) = (f, .inl .readChair) := by
      rw [popStep, if_neg hmeet]
    apply (Procedure.finish_of_call hstep).trans
    apply (Procedure.finish_of_return rfl).trans
    simp only [hmeet, if_false]

/-- `popFifo` taken access by access is `popFifo`. -/
theorem pop_finish (f : Fifo) : pop.finish f .testEmpty = popFifo f := by
  unfold popFifo
  by_cases hempty : isEmptyFifo f = true
  · have hstep : popStep f .testEmpty = (f, .inr (-1)) := by rw [popStep, if_pos hempty]
    rw [if_pos hempty]
    exact Procedure.finish_of_return hstep
  · have hstep : popStep f .testEmpty = (f, .inl .readHead) := by rw [popStep, if_neg hempty]
    rw [if_neg hempty]
    apply (Procedure.finish_of_call hstep).trans
    apply (Procedure.finish_of_call rfl).trans
    apply (Procedure.finish_of_call rfl).trans
    apply (Procedure.finish_of_call rfl).trans
    apply (Procedure.finish_of_call rfl).trans
    apply (Procedure.finish_of_call rfl).trans
    by_cases hwrap : f.head + 1 = f.max
    · have hstep (g : Fifo) (hg : g.max = f.max) :
          popStep g (.readMax (f.head + 1)) = (g, .inl .wrapHead) := by
        rw [popStep, hg, if_pos hwrap]
      refine (Procedure.finish_of_call (hstep _ ?_)).trans ?_
      · rfl
      apply (Procedure.finish_of_call rfl).trans
      rw [pop_finish_tail]
      simp only [hwrap, if_true]
    · have hstep (g : Fifo) (hg : g.max = f.max) :
          popStep g (.readMax (f.head + 1)) = (g, .inl .readHeadTail) := by
        rw [popStep, hg, if_neg hwrap]
      refine (Procedure.finish_of_call (hstep _ ?_)).trans ?_
      · rfl
      rw [pop_finish_tail]
      simp only [hwrap, if_false]

/-- The end of `pushFifo`, access by access, with a place at the tail. -/
theorem push_finish_slot (f : Fifo) (x : ℤ) :
    (push x).finish f .readSlot =
      let f' := { f with tab := Function.update f.tab f.tail x, tail := f.tail + 1 }
      (if f'.tail = f'.max then { f' with tail := 0 } else f', 0) := by
  apply (Procedure.finish_of_call rfl).trans
  apply (Procedure.finish_of_call rfl).trans
  apply (Procedure.finish_of_call rfl).trans
  apply (Procedure.finish_of_call rfl).trans
  by_cases hwrap : f.tail + 1 = f.max
  · have hstep (g : Fifo) (hg : g.max = f.max) :
        pushStep x g (.readMax (f.tail + 1)) = (g, .inl .wrapTail) := by
      rw [pushStep, hg, if_pos hwrap]
    refine (Procedure.finish_of_call (hstep _ ?_)).trans ?_
    · rfl
    apply (Procedure.finish_of_return rfl).trans
    simp only [hwrap, if_true]
  · have hstep (g : Fifo) (hg : g.max = f.max) :
        pushStep x g (.readMax (f.tail + 1)) = (g, .inr 0) := by
      rw [pushStep, hg, if_neg hwrap]
    refine (Procedure.finish_of_return (hstep _ ?_)).trans ?_
    · rfl
    simp only [hwrap, if_false]

/-- `pushFifo` taken access by access is `pushFifo`. -/
theorem push_finish (f : Fifo) (x : ℤ) : (push x).finish f .readHeadTail = pushFifo f x := by
  unfold pushFifo isFullFifo
  apply (Procedure.finish_of_call rfl).trans
  by_cases hfull : f.head = f.tail
  · have hstep : pushStep x f (.readTail f.head) = (f, .inr (-1)) := by
      rw [pushStep, if_pos hfull]
    rw [if_pos (decide_eq_true hfull)]
    exact Procedure.finish_of_return hstep
  · have hstep : pushStep x f (.readTail f.head) = (f, .inl .testEmpty) := by
      rw [pushStep, if_neg hfull]
    rw [if_neg (by simpa using hfull)]
    apply (Procedure.finish_of_call hstep).trans
    by_cases hempty : isEmptyFifo f = true
    · have hstep : pushStep x f .testEmpty = (f, .inl .readTailHead) := by
        rw [pushStep, if_pos hempty]
      rw [if_pos hempty]
      apply (Procedure.finish_of_call hstep).trans
      apply (Procedure.finish_of_call rfl).trans
      apply (Procedure.finish_of_call rfl).trans
      rw [push_finish_slot]
    · have hstep : pushStep x f .testEmpty = (f, .inl .readSlot) := by
        rw [pushStep, if_neg hempty]
      rw [if_neg hempty]
      apply (Procedure.finish_of_call hstep).trans
      rw [push_finish_slot]

/-- A push does not touch the chair. -/
theorem pushStep_chair (x : ℤ) (f : Fifo) (p : PushPc) : (pushStep x f p).1.chair = f.chair := by
  cases p <;> rfl

end SystemyOperacyjne.BarberShop
