import SystemyOperacyjne.Library.Transition

/-!
# A worker with a queue

One process of a system that takes messages out of a queue, one at a time, and answers them.
`Worker` says where in a state the queue is and what the process has in its hands, and which
labels take a message and which are answers. `Worker.ServesAll` is what an orderly end asks
for: whatever waits is answered. `Worker.StopsAt` is a message at which the worker goes away
instead, and then what waits behind it is served only if there is nothing to serve
(`Worker.StopsAt.servesAll_iff`).
-/

set_option autoImplicit false

namespace SystemyOperacyjne.Library

/-- A process that takes messages out of a queue and answers them. -/
structure Worker (σ α μ : Type*) where
  queue : σ → List μ
  holds : σ → Option μ  -- the message in its hands
  gone : σ → Prop
  takes : α → Option μ
  answers : α → Option μ

namespace Worker

variable {σ α μ : Type*} (W : Worker σ α μ)

/-- Every message in the queue that `P` holds of is answered by one of the labels. -/
def ServesAll (P : μ → Prop) (s : σ) (l : List α) : Prop :=
  ∀ m ∈ W.queue s, P m → ∃ a ∈ l, W.answers a = some m

/-- A step of the others. -/
structure Aside (s : σ) (a : α) (s' : σ) : Prop where
  takes : W.takes a = none
  answers : W.answers a = none
  holds : W.holds s' = W.holds s
  gone : W.gone s → W.gone s'

/-- A step in which the worker does not answer `m`, or anything after it. -/
structure Halts (m : μ) (s : σ) (a : α) (s' : σ) : Prop where
  taken : W.takes a = some m → W.holds s' = some m
  holds : W.holds s = some m → W.answers a = none ∧ (W.holds s' = some m ∨ W.gone s')
  gone : W.gone s → W.answers a = none ∧ W.gone s'

/-- The worker never answers `m`, or anything after it. -/
def StopsAt (T : System σ α) (m : μ) : Prop :=
  ∀ s a s', T.step s a s' → W.Halts m s a s'

variable {W} {m : μ} {s s' s'' : σ} {a : α} {l : List α}

/-- The others do not make it answer. -/
theorem Aside.halts (h : W.Aside s a s') : W.Halts m s a s' where
  taken ha := by
    rw [h.takes] at ha
    cases ha
  holds hs := by
    rw [h.holds]
    exact ⟨h.answers, .inl hs⟩
  gone hs := ⟨h.answers, h.gone hs⟩

/-- Neither does it answer where it takes a message. -/
theorem Halts.taking (hholds : W.holds s = none) (hgone : ¬ W.gone s)
    (htaken : W.holds s' = W.takes a) : W.Halts m s a s' where
  taken := htaken.trans
  holds hs := by
    rw [hholds] at hs
    cases hs
  gone hs := absurd hs hgone

/-- Where it deals with the one in its hands, what counts is what it does with `m`. -/
theorem Halts.handling (htakes : W.takes a = none) (hgone : ¬ W.gone s)
    (hstops : W.holds s = some m → W.answers a = none ∧ W.gone s') : W.Halts m s a s' where
  taken ha := by
    rw [htakes] at ha
    cases ha
  holds hs := (hstops hs).imp_right .inr
  gone hs := absurd hs hgone

namespace StopsAt

variable {T : System σ α} (h : W.StopsAt T m)

include h

/-- With such a message in its hands the worker answers nothing any more. -/
theorem answers (hs : W.holds s = some m) (run : T.Run s l s') :
    ∀ a ∈ l, W.answers a = none := by
  have hsilent : ∀ t a t', W.holds t = some m ∨ W.gone t → T.step t a t' →
      W.answers a = none ∧ (W.holds t' = some m ∨ W.gone t') := by
    intro t a t' ht hstep
    rcases ht with ht | ht
    · exact (h t a t' hstep).holds ht
    · obtain ⟨ha, hgone⟩ := (h t a t' hstep).gone ht
      exact ⟨ha, .inr hgone⟩
  exact run.labels hsilent (.inl hs)

/-- **An end is orderly only if nothing waits** when the message is taken. -/
theorem servesAll_iff {P : μ → Prop} (take : T.step s a s') (ha : W.takes a = some m)
    (run : T.Run s' l s'') : W.ServesAll P s' l ↔ ∀ m' ∈ W.queue s', ¬ P m' := by
  have hs : W.holds s' = some m := (h s a s' take).taken ha
  constructor
  · intro hserves m' hm' hP
    obtain ⟨b, hb, hanswers⟩ := hserves m' hm' hP
    rw [h.answers hs run b hb] at hanswers
    cases hanswers
  · exact fun hnone m' hm' hP => absurd hP (hnone m' hm')

end StopsAt

end Worker

end SystemyOperacyjne.Library
