import Mathlib.Data.List.Count

/-!
# Pending signals

What is pending for a process is a list of signals with the data they carry. Whether a signal
that is sent while one is already pending is queued behind it or dropped is a `Delivery`; the
number of times a signal is pending is then known for both (`Delivery.count_post`).
-/

set_option autoImplicit false

namespace SystemyOperacyjne.Library

/-- What becomes of a signal that is sent while one of its kind is pending. -/
inductive Delivery
  | queued  -- every signal is queued
  | standard  -- one place: the new signal is dropped
  deriving DecidableEq, Repr

namespace Delivery

variable {α : Type*}

/-- Whether a signal sent now is dropped. -/
def drops : Delivery → List α → Bool
  | .queued, _ => false
  | .standard, pending => !pending.isEmpty

/-- What is pending after a signal has been sent. -/
def post (d : Delivery) (pending : List α) (a : α) : List α :=
  if d.drops pending then pending else pending ++ [a]

/-- How often a signal is pending after a post. -/
theorem count_post [DecidableEq α] (d : Delivery) (pending : List α) (a b : α) :
    (d.post pending a).count b =
      pending.count b + if d.drops pending = false ∧ a = b then 1 else 0 := by
  unfold post
  cases hd : d.drops pending with
  | true => simp
  | false =>
    by_cases hab : a = b
    · subst hab
      simp
    · simp [hab]

end Delivery

end SystemyOperacyjne.Library
