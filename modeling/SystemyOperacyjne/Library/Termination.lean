import SystemyOperacyjne.Library.Transition

/-!
# Systems that come to an end

A system ends in the states of `goal` if its runs cannot be longer than some bound, however its
steps are scheduled, and if it stops nowhere else. Two rules show that it does: a natural-number
rank that every step lowers (`System.EndsIn.of_rank`), and, where every state has one step at
most, a single run that comes to the goal (`System.EndsIn.of_deterministic`). Two show that it
does not: runs that can always be made longer (`System.not_endsIn_of_longer`), and a stop off the
goal.
-/

set_option autoImplicit false

namespace SystemyOperacyjne.Library.System

variable {σ α : Type*} {T : System σ α} {I goal : σ → Prop} {s s' s'' : σ} {l m : List α}

/-- No step is possible. -/
def Stuck (T : System σ α) (s : σ) : Prop :=
  ∀ a s', ¬ T.step s a s'

/-- **Every schedule comes to an end**: from `s` the runs are no longer than some bound, and where
no step is possible the goal has been reached. -/
structure EndsIn (T : System σ α) (goal : σ → Prop) (s : σ) : Prop where
  bounded : ∃ n, ∀ l s', T.Run s l s' → l.length ≤ n
  stuck : ∀ l s', T.Run s l s' → T.Stuck s' → goal s'

/-- A run takes its length off the rank. -/
theorem Run.length_add_le {rank : σ → ℕ}
    (lower : ∀ s a s', T.step s a s' → rank s' < rank s) (run : T.Run s l s') :
    l.length + rank s' ≤ rank s := by
  induction run with
  | nil s => simp
  | cons head _ ih =>
    have hlt := lower _ _ _ head
    rw [List.length_cons]
    omega

/-- **A rank that every step lowers** bounds the runs. -/
theorem EndsIn.of_rank (rank : σ → ℕ) (lower : ∀ s a s', T.step s a s' → rank s' < rank s)
    (stuck : ∀ l s', T.Run s l s' → T.Stuck s' → goal s') : T.EndsIn goal s := by
  constructor
  · refine ⟨rank s, ?_⟩
    intro l s' run
    have hle := run.length_add_le lower
    omega
  · exact stuck

/-- Where every state has one step at most, a run is the beginning of every run that comes to a
stop. The induction is on the run. -/
theorem Run.extends_to_stuck (step : ∀ s a s', I s → T.step s a s' → I s')
    (determined : ∀ s a a' s' s'', I s → T.step s a s' → T.step s a' s'' → a = a' ∧ s' = s'')
    (run : T.Run s l s') (hs : I s) (hrun : T.Run s m s'') (hstuck : T.Stuck s'') :
    ∃ k, m = l ++ k ∧ T.Run s' k s'' := by
  induction run generalizing m with
  | nil s => exact ⟨m, rfl, hrun⟩
  | cons head _ ih =>
    cases hrun with
    | nil => exact absurd head (hstuck _ _)
    | cons head' tail' =>
      obtain ⟨rfl, rfl⟩ := determined _ _ _ _ _ hs head head'
      obtain ⟨k, rfl, hk⟩ := ih (step _ _ _ hs head) tail'
      exact ⟨k, rfl, hk⟩

/-- **A system of one schedule** ends if one run of it comes to a stop at the goal. -/
theorem EndsIn.of_deterministic (step : ∀ s a s', I s → T.step s a s' → I s')
    (determined : ∀ s a a' s' s'', I s → T.step s a s' → T.step s a' s'' → a = a' ∧ s' = s'')
    (hs : I s) (hrun : T.Run s m s'') (hstuck : T.Stuck s'') (hgoal : goal s'') :
    T.EndsIn goal s := by
  constructor
  · refine ⟨m.length, ?_⟩
    intro l s' run
    obtain ⟨k, rfl, -⟩ := run.extends_to_stuck step determined hs hrun hstuck
    rw [List.length_append]
    omega
  · intro l s' run hstop
    obtain ⟨k, -, hk⟩ := run.extends_to_stuck step determined hs hrun hstuck
    cases hk with
    | nil => exact hgoal
    | cons head _ => exact absurd head (hstop _ _)

/-- **A system does not end** if from some states that it reaches it can always go on to others
of them. -/
theorem not_endsIn_of_longer (I : σ → Prop)
    (longer : ∀ s, I s → ∃ l s', T.Run s l s' ∧ l ≠ [] ∧ I s')
    (hrun : T.Run s m s') (hs : I s') : ¬ T.EndsIn goal s := by
  have hlong : ∀ n, ∃ l s', T.Run s l s' ∧ n ≤ l.length ∧ I s' := by
    intro n
    induction n with
    | zero => exact ⟨m, s', hrun, Nat.zero_le _, hs⟩
    | succ n ih =>
      obtain ⟨l, s₁, hl, hn, hI⟩ := ih
      obtain ⟨k, s₂, hk, hne, hI'⟩ := longer s₁ hI
      refine ⟨l ++ k, s₂, hl.append hk, ?_, hI'⟩
      have hpos := List.length_pos_iff.mpr hne
      rw [List.length_append]
      omega
  intro hends
  obtain ⟨n, hn⟩ := hends.bounded
  obtain ⟨l, s₁, hl, hlong, -⟩ := hlong (n + 1)
  have hle := hn l s₁ hl
  omega

end SystemyOperacyjne.Library.System
