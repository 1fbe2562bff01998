import Mathlib.Order.WellFounded
import Mathlib.Tactic.Common

/-!
# Procedures taken step by step

A call of a procedure that other processes may interleave with is a sequence of small
steps on the shared state, each of which leads to another point of the call or returns.
`Procedure.finish` is what the rest of the call does when nobody else touches the state;
a step does not change it (`Procedure.finish_of_call`, `Procedure.finish_of_return`), so a
fact about the whole call carries over to every point in its middle. `Procedure.trace` lists
the points the rest of the call goes through, and `uses_of_call` reads off what they use.
-/

set_option autoImplicit false

namespace SystemyOperacyjne.Library

/-- A procedure on states `σ` with points `P` and results `ρ`; every step lowers the
rank of the point. -/
structure Procedure (σ P ρ : Type*) where
  step : σ → P → σ × (P ⊕ ρ)
  rank : P → ℕ
  step_rank : ∀ s p s' p', step s p = (s', .inl p') → rank p' < rank p

namespace Procedure

variable {σ P ρ : Type*} (f : Procedure σ P ρ)

/-- The rest of the call, undisturbed: the final state and the result. -/
def finish (s : σ) (p : P) : σ × ρ :=
  match _h : f.step s p with
  | (s', .inl p') => finish s' p'
  | (s', .inr r) => (s', r)
termination_by f.rank p
decreasing_by exact f.step_rank s p s' p' ‹_›

variable {f}

/-- A step inside the call leaves the outcome of the call as it is. -/
theorem finish_of_call {s s' : σ} {p p' : P} (h : f.step s p = (s', .inl p')) :
    f.finish s p = f.finish s' p' := by
  rw [finish]
  split
  · rename_i heq
    rw [h] at heq
    cases heq
    rfl
  · rename_i heq
    rw [h] at heq
    cases heq

/-- The last step of a call is its outcome. -/
theorem finish_of_return {s s' : σ} {p : P} {r : ρ} (h : f.step s p = (s', .inr r)) :
    f.finish s p = (s', r) := by
  rw [finish]
  split
  · rename_i heq
    rw [h] at heq
    cases heq
  · rename_i heq
    rw [h] at heq
    cases heq
    rfl

variable (f) in
/-- The points the rest of the call goes through, undisturbed. -/
def trace (s : σ) (p : P) : List P :=
  match _h : f.step s p with
  | (s', .inl p') => p :: trace s' p'
  | (_, .inr _) => [p]
termination_by f.rank p
decreasing_by exact f.step_rank s p s' p' ‹_›

/-- A call goes on at what it calls. -/
theorem trace_of_call {s s' : σ} {p p' : P} (h : f.step s p = (s', .inl p')) :
    f.trace s p = p :: f.trace s' p' := by
  rw [trace]
  split
  · rename_i heq
    rw [h] at heq
    cases heq
    rfl
  · rename_i heq
    rw [h] at heq
    cases heq

/-- A return is the end. -/
theorem trace_of_return {s s' : σ} {p : P} {r : ρ} (h : f.step s p = (s', .inr r)) :
    f.trace s p = [p] := by
  rw [trace]
  split
  · rename_i heq
    rw [h] at heq
    cases heq
  · rfl

variable {ι : Type*} {u : P → Option ι}

/-- A step that uses nothing adds nothing to what the call uses. -/
theorem uses_of_call {s s' : σ} {p p' : P} (h : f.step s p = (s', .inl p')) (hu : u p = none) :
    (f.trace s p).filterMap u = (f.trace s' p').filterMap u := by
  rw [trace_of_call h, List.filterMap_cons_none hu]

/-- A step that uses `i` puts it in front of what the rest of the call uses. -/
theorem uses_of_call_some {s s' : σ} {p p' : P} {i : ι} (h : f.step s p = (s', .inl p'))
    (hu : u p = some i) : (f.trace s p).filterMap u = i :: (f.trace s' p').filterMap u := by
  rw [trace_of_call h, List.filterMap_cons_some hu]

/-- A last step that uses nothing. -/
theorem uses_of_return {s s' : σ} {p : P} {r : ρ} (h : f.step s p = (s', .inr r))
    (hu : u p = none) : (f.trace s p).filterMap u = [] := by
  rw [trace_of_return h, List.filterMap_cons_none hu]
  rfl

/-- The rest of a call only goes through points of lower rank. -/
theorem rank_le_of_mem_trace (s : σ) (p : P) : ∀ q ∈ f.trace s p, f.rank q ≤ f.rank p := by
  induction hn : f.rank p using Nat.strong_induction_on generalizing s p with
  | _ n ih =>
    intro q hq
    match h : f.step s p with
    | (s', .inl p') =>
      have hlt := f.step_rank s p s' p' h
      rw [trace_of_call h] at hq
      cases hq with
      | head => exact hn.le
      | tail _ hq => exact (ih _ (hn ▸ hlt) s' p' rfl q hq).trans (hn ▸ hlt.le)
    | (s', .inr r) =>
      rw [trace_of_return h] at hq
      rw [List.mem_singleton.mp hq]
      exact hn.le

end Procedure

end SystemyOperacyjne.Library
