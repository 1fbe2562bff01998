import Mathlib.Data.List.Forall2
import Mathlib.Data.Nat.Notation

/-!
# Objects that are called, and the bounded queue

An object is a state and what a call does to it. One object refines another when a relation
of their states is kept by every call and the two answers match; then the answers match over
every sequence of calls (`Object.Refines.run`). The queue of limited capacity, over any type
of elements, is the object that queues are meant to refine.
-/

set_option autoImplicit false

namespace SystemyOperacyjne.Library

/-- An object with states `σ`: what a call `γ` leaves and answers. -/
abbrev Object (σ γ ρ : Type*) := σ → γ → σ × ρ

namespace Object

variable {σ τ γ ρ ς : Type*}

/-- The calls, one after the other: the last state and all the answers. -/
def run (O : Object σ γ ρ) (s : σ) : List γ → σ × List ρ
  | [] => (s, [])
  | c :: cs => ((run O (O s c).1 cs).1, (O s c).2 :: (run O (O s c).1 cs).2)

/-- Every call takes states related by `R` to such states, and answers as `A` says. -/
def Refines (O : Object σ γ ρ) (P : Object τ γ ς) (R : σ → τ → Prop) (A : ρ → ς → Prop) : Prop :=
  ∀ s t c, R s t → R (O s c).1 (P t c).1 ∧ A (O s c).2 (P t c).2

/-- **A refinement holds of every sequence of calls.** -/
theorem Refines.run {O : Object σ γ ρ} {P : Object τ γ ς} {R : σ → τ → Prop}
    {A : ρ → ς → Prop} (h : Refines O P R A) {s : σ} {t : τ} (hR : R s t) (cs : List γ) :
    R (O.run s cs).1 (P.run t cs).1 ∧ List.Forall₂ A (O.run s cs).2 (P.run t cs).2 := by
  induction cs generalizing s t with
  | nil => exact ⟨hR, .nil⟩
  | cons c cs ih =>
    obtain ⟨hnext, hanswer⟩ := h s t c hR
    obtain ⟨hlast, hanswers⟩ := ih hnext
    exact ⟨hlast, .cons hanswer hanswers⟩

end Object

/-! ## The queue of limited capacity -/

variable {α : Type*}

/-- A call on a queue. -/
inductive QueueCall (α : Type*)
  | push (x : α)
  | pop
  deriving DecidableEq, Repr

/-- The answer of a queue. -/
inductive QueueAnswer (α : Type*)
  | full
  | pushed
  | empty
  | popped (x : α)
  deriving DecidableEq, Repr

/-- What waits, the oldest first, and what was popped last. -/
structure BoundedQueue (α : Type*) where
  waiting : List α
  last : Option α
  deriving DecidableEq, Repr

/-- The queue that nothing has been pushed to. -/
def BoundedQueue.new : BoundedQueue α where
  waiting := []
  last := none

/-- The queue that has room for `N` elements. -/
def BoundedQueue.object (N : ℕ) : Object (BoundedQueue α) (QueueCall α) (QueueAnswer α)
  | q, .push x =>
    if q.waiting.length < N then ({ q with waiting := q.waiting ++ [x] }, .pushed) else (q, .full)
  | q, .pop =>
    match q.waiting with
    | [] => (q, .empty)
    | x :: waiting => ({ waiting := waiting, last := some x }, .popped x)

end SystemyOperacyjne.Library
