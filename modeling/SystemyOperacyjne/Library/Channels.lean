import Mathlib.Data.List.Forall2
import Mathlib.Data.List.Nodup
import Mathlib.Logic.Function.Basic

/-!
# First-in first-out channels

A family of channels is a function from their names to the lists of what they hold, the oldest
first. Two families **match** along a relation `R` when every channel of the one holds, entry
by entry, what `R` relates to the same channel of the other; so messages are compared with what
an abstract machine says they are about. Every way to change a channel keeps families matched
when it is done to both.
-/

set_option autoImplicit false

namespace SystemyOperacyjne.Library

variable {κ μ τ : Type*}

/-- Every channel of `q` holds what `R` relates, entry by entry, to the channel of `p`. -/
def Match (R : μ → τ → Prop) (q : κ → List μ) (p : κ → List τ) : Prop :=
  ∀ k, List.Forall₂ R (q k) (p k)

/-- What stands in the one of two related lists has a partner in the other. -/
theorem exists_right_of_mem {R : μ → τ → Prop} {l : List μ} {l' : List τ}
    (h : List.Forall₂ R l l') {m : μ} (hm : m ∈ l) : ∃ t ∈ l', R m t := by
  induction h with
  | nil => cases hm
  | @cons a b _ _ hab _ ih =>
    rcases List.mem_cons.mp hm with rfl | hm
    · exact ⟨b, List.mem_cons_self, hab⟩
    · obtain ⟨t, ht, hmt⟩ := ih hm
      exact ⟨t, List.mem_cons_of_mem _ ht, hmt⟩

/-- What is on the right side of a list of pairs has its partner on the left. -/
theorem exists_left_of_mem {R : μ → τ → Prop} {l : List μ} {l' : List τ}
    (h : List.Forall₂ R l l') {t : τ} (ht : t ∈ l') : ∃ m ∈ l, R m t :=
  exists_right_of_mem h.flip ht

namespace Match

variable {R S : μ → τ → Prop} {q : κ → List μ} {p : κ → List τ} {k : κ}

/-- A wider relation matches as well. -/
theorem mono (h : Match R q p) (hRS : ∀ m t, R m t → S m t) : Match S q p :=
  fun k => (h k).imp hRS

variable [DecidableEq κ]

/-- One channel may be given new contents. -/
theorem set (h : Match R q p) {l : List μ} {l' : List τ} (hl : List.Forall₂ R l l') :
    Match R (Function.update q k l) (Function.update p k l') := by
  intro j
  by_cases hj : j = k
  · subst hj
    rw [Function.update_self, Function.update_self]
    exact hl
  · rw [Function.update_of_ne hj, Function.update_of_ne hj]
    exact h j

/-- **Sending**: an entry is put behind the others. -/
theorem push (h : Match R q p) {m : μ} {t : τ} (hmt : R m t) :
    Match R (Function.update q k (q k ++ [m])) (Function.update p k (p k ++ [t])) :=
  h.set (List.rel_append (h k) (.cons hmt .nil))

/-- **Receiving**: the oldest entry is taken, and what is taken from the two is related. -/
theorem pop (h : Match R q p) {m : μ} {rest : List μ} (hq : q k = m :: rest) :
    ∃ t rest', p k = t :: rest' ∧ R m t ∧
      Match R (Function.update q k rest) (Function.update p k rest') := by
  have hk := h k
  rw [hq] at hk
  cases hp : p k with
  | nil =>
    rw [hp] at hk
    cases hk
  | cons t rest' =>
    rw [hp] at hk
    cases hk with
    | cons hmt hrest => exact ⟨t, rest', rfl, hmt, h.set hrest⟩

/-- Sending to several channels, one after the other. -/
theorem pushAll (h : Match R q p) {m : μ} {t : τ} (hmt : R m t) (ks : List κ) :
    Match R (ks.foldl (fun q k => Function.update q k (q k ++ [m])) q)
      (ks.foldl (fun p k => Function.update p k (p k ++ [t])) p) := by
  induction ks generalizing q p with
  | nil => exact h
  | cons k ks ih => exact ih (h.push hmt)

end Match

end SystemyOperacyjne.Library
