import Mathlib.Data.List.Basic
import Mathlib.Data.Set.Basic

/-!
# Labelled transition systems

Finite runs of a labelled step relation, the rules that carry a property along
every run, and the two ways in which one system is compared with another:

* `System.Run.history_induction` and `System.Invariant` carry a predicate from the
  initial states to every reachable state, with or without the labels seen so far;
* `Simulation` matches every step of one system by a run of another with the same
  observations, and then every trace of the first is a trace of the second
  (`Simulation.traces_subset`);
* `Machine` is a system given by a function that computes its steps, which can be executed
  along a schedule (`Machine.exec_run`);
* `System.drain_runs` reaches a goal from any state of an invariant, as long as every state
  off the goal has a run that makes a rank smaller; `System.drain` takes one step at a time.
-/

set_option autoImplicit false

namespace SystemyOperacyjne.Library

/-- A labelled transition system: which states it may start in, and which labelled
steps it may take. -/
structure System (σ α : Type*) where
  init : σ → Prop
  step : σ → α → σ → Prop

namespace System

variable {σ α ε : Type*} (T : System σ α)

/-- `T.Run s l s'`: the labels `l`, taken in order, lead from `s` to `s'`. -/
inductive Run : σ → List α → σ → Prop
  | nil (s : σ) : Run s [] s
  | cons {s s' s'' : σ} {a : α} {l : List α} (head : T.step s a s') (tail : Run s' l s'') :
      Run s (a :: l) s''

/-- A state some run from an initial state ends in. -/
def Reachable (s : σ) : Prop :=
  ∃ s₀ l, T.init s₀ ∧ T.Run s₀ l s

/-- The sequences of observations the runs from the initial states show. -/
def traces (obs : α → Option ε) : Set (List ε) :=
  {w | ∃ s₀ l s, T.init s₀ ∧ T.Run s₀ l s ∧ l.filterMap obs = w}

variable {T}

/-- A step is a run. -/
theorem Run.single {s s' : σ} {a : α} (h : T.step s a s') : T.Run s [a] s' :=
  .cons h (.nil s')

/-- A run goes on where another ends. -/
theorem Run.append {s s' s'' : σ} {l m : List α} (h : T.Run s l s') (h' : T.Run s' m s'') :
    T.Run s (l ++ m) s'' := by
  induction h with
  | nil s => exact h'
  | cons head _ ih => exact .cons head (ih h')

/-- **Induction with history**: a predicate on the labels seen so far and the current
state, kept by every step, holds at the end of every run that starts in it. -/
theorem Run.history_induction {I : List α → σ → Prop}
    (step : ∀ l s a s', I l s → T.step s a s' → I (l ++ [a]) s') {s₀ s : σ} {l : List α}
    (run : T.Run s₀ l s) (init : I [] s₀) : I l s := by
  suffices h : ∀ p, I p s₀ → I (p ++ l) s by simpa using h [] init
  clear init
  induction run with
  | nil s => intro p hp; simpa using hp
  | cons head _ ih =>
    intro p hp
    simpa using ih _ (step p _ _ _ hp head)

/-- A run with one label is a step. -/
theorem Run.step {s s' : σ} {a : α} (h : T.Run s [a] s') : T.step s a s' := by
  cases h with
  | cons head tail =>
    cases tail
    exact head

/-- A run is a run up to one of its labels, the step with it, and a run behind it. -/
theorem Run.split {s s'' : σ} {a : α} {l m : List α} (h : T.Run s (l ++ a :: m) s'') :
    ∃ t t', T.Run s l t ∧ T.step t a t' ∧ T.Run t' m s'' := by
  induction l generalizing s with
  | nil =>
    cases h with
    | cons head tail => exact ⟨s, _, .nil s, head, tail⟩
  | cons b l ih =>
    cases h with
    | cons head tail =>
      obtain ⟨t, t', hrun, hstep, hrest⟩ := ih tail
      exact ⟨t, t', .cons head hrun, hstep, hrest⟩

/-- What every step from the states of `I` shows, if it leads to such a state again, all the
labels of a run show. -/
theorem Run.labels {I : σ → Prop} {P : α → Prop}
    (step : ∀ s a s', I s → T.step s a s' → P a ∧ I s') {s s' : σ} {l : List α}
    (run : T.Run s l s') (hs : I s) : ∀ a ∈ l, P a := by
  induction run with
  | nil s => simp
  | cons head _ ih =>
    obtain ⟨ha, hnext⟩ := step _ _ _ hs head
    intro b hb
    rcases List.mem_cons.mp hb with rfl | hb
    · exact ha
    · exact ih hnext b hb

/-- What a run reaches from a reachable state is reachable. -/
theorem Reachable.run {s s' : σ} {l : List α} (h : T.Reachable s) (h' : T.Run s l s') :
    T.Reachable s' := by
  obtain ⟨s₀, m, hinit, hrun⟩ := h
  exact ⟨s₀, m ++ l, hinit, hrun.append h'⟩

/-- A run of a system all of whose steps are steps of another is a run of that one. -/
theorem Run.mono {T' : System σ α} (hstep : ∀ s a s', T.step s a s' → T'.step s a s')
    {s s' : σ} {l : List α} (run : T.Run s l s') : T'.Run s l s' := by
  induction run with
  | nil s => exact .nil s
  | cons head _ ih => exact .cons (hstep _ _ _ head) ih

/-- What a system reaches, another reaches that has its initial states and its steps. -/
theorem Reachable.mono {T' : System σ α} (hinit : ∀ s, T.init s → T'.init s)
    (hstep : ∀ s a s', T.step s a s' → T'.step s a s') {s : σ} (h : T.Reachable s) :
    T'.Reachable s := by
  obtain ⟨s₀, l, hs₀, run⟩ := h
  exact ⟨s₀, l, hinit s₀ hs₀, run.mono hstep⟩

/-- A state predicate that holds initially and that every step keeps. -/
structure Invariant (T : System σ α) (I : σ → Prop) : Prop where
  init : ∀ s, T.init s → I s
  step : ∀ s a s', I s → T.step s a s' → I s'

/-- A run that starts in an invariant's states ends in one. -/
theorem Invariant.run {I : σ → Prop} (h : Invariant T I) {s s' : σ} {l : List α}
    (hs : I s) (run : T.Run s l s') : I s' :=
  run.history_induction (I := fun _ s => I s) (fun _ s a s' => h.step s a s') hs

/-- An invariant holds in every reachable state. -/
theorem Invariant.reachable {I : σ → Prop} (h : Invariant T I) {s : σ} (hs : T.Reachable s) :
    I s := by
  obtain ⟨s₀, l, hinit, hrun⟩ := hs
  exact h.run (h.init s₀ hinit) hrun

/-- The system with its history: a state is what has happened and what has become of it, and
a step is taken only where `G` allows it. -/
def guarded (T : System σ α) (G : List α → σ → α → Prop) : System (List α × σ) α where
  init p := p.1 = [] ∧ T.init p.2
  step p a p' := T.step p.2 a p'.2 ∧ p'.1 = p.1 ++ [a] ∧ G p.1 p.2 a

/-- A predicate on histories and states that holds initially and that every step the guard
allows keeps. -/
theorem guarded_induction {G : List α → σ → α → Prop} {I : List α → σ → Prop}
    (init : ∀ s, T.init s → I [] s)
    (step : ∀ l s a s', I l s → T.step s a s' → G l s a → I (l ++ [a]) s') {l : List α} {s : σ}
    (h : (T.guarded G).Reachable (l, s)) : I l s := by
  have hinv : Invariant (T.guarded G) fun p => I p.1 p.2 := by
    constructor
    · intro p ⟨hl, hp⟩
      rw [hl]
      exact init _ hp
    · intro p a p' hI ⟨hstep, hl, hG⟩
      rw [hl]
      exact step _ _ _ _ hI hstep hG
  exact hinv.reachable h

/-- A run all of whose steps the guard allows is a run with history. -/
theorem Run.guarded {G : List α → σ → α → Prop} {s s' : σ} {l : List α} (run : T.Run s l s')
    (m : List α) (hG : ∀ p a q t, l = p ++ a :: q → T.Run s p t → G (m ++ p) t a) :
    (T.guarded G).Run (m, s) l (m ++ l, s') := by
  induction run generalizing m with
  | nil s => simpa using Run.nil (T := T.guarded G) (m, s)
  | @cons s t s' a l head tail ih =>
    have hfirst : (T.guarded G).step (m, s) a (m ++ [a], t) := by
      refine ⟨head, rfl, ?_⟩
      simpa using hG [] a l s rfl (.nil s)
    apply Run.cons hfirst
    have hrest := ih (m ++ [a]) <| by
      intro p b q u hl hu
      simpa using hG (a :: p) b q u (by rw [hl]; rfl) (.cons head hu)
    simpa using hrest

/-- A guard may be weakened. -/
theorem Run.guarded_mono {G G' : List α → σ → α → Prop}
    (hG : ∀ l s a s', T.step s a s' → G l s a → G' l s a) {p p' : List α × σ} {l : List α}
    (run : (T.guarded G).Run p l p') : (T.guarded G').Run p l p' := by
  induction run with
  | nil p => exact .nil p
  | cons head _ ih => exact .cons ⟨head.1, head.2.1, hG _ _ _ _ head.1 head.2.2⟩ ih

/-- **Draining by whole runs**: where every state off the goal has a run that lowers the rank, some
run leads to the goal. The labels of the run are those of the runs the caller offers. The
induction is on the rank. -/
theorem drain_runs {ρ : Type*} [LT ρ] [WellFoundedLT ρ] {I goal : σ → Prop} (P : α → Prop)
    (rank : σ → ρ)
    (progress : ∀ s, I s → ¬ goal s →
      ∃ l s', T.Run s l s' ∧ (∀ a ∈ l, P a) ∧ I s' ∧ rank s' < rank s)
    {s : σ} (hs : I s) : ∃ l s', T.Run s l s' ∧ (∀ a ∈ l, P a) ∧ goal s' ∧ I s' := by
  induction hn : rank s using WellFoundedLT.induction generalizing s with
  | _ n ih =>
    by_cases hg : goal s
    · exact ⟨[], s, .nil s, by simp, hg, hs⟩
    · obtain ⟨l, s', hrun, hl, hs', hlt⟩ := progress s hs hg
      obtain ⟨l', s'', hrun', hl', hgoal, hs''⟩ := ih (rank s') (hn ▸ hlt) hs' rfl
      refine ⟨l ++ l', s'', hrun.append hrun', ?_, hgoal, hs''⟩
      intro b hb
      rcases List.mem_append.mp hb with hb | hb
      · exact hl b hb
      · exact hl' b hb

/-- **Draining**: where every state off the goal has a step that lowers the rank, some
run leads to the goal. The labels of the run are those of the steps the caller offers. -/
theorem drain {ρ : Type*} [LT ρ] [WellFoundedLT ρ] {I goal : σ → Prop} (P : α → Prop)
    (rank : σ → ρ)
    (progress : ∀ s, I s → ¬ goal s →
      ∃ a s', T.step s a s' ∧ P a ∧ I s' ∧ rank s' < rank s)
    {s : σ} (hs : I s) : ∃ l s', T.Run s l s' ∧ (∀ a ∈ l, P a) ∧ goal s' ∧ I s' := by
  apply drain_runs P rank _ hs
  intro s hs hg
  obtain ⟨a, s', hstep, ha, hs', hlt⟩ := progress s hs hg
  refine ⟨[a], s', .single hstep, ?_, hs', hlt⟩
  intro b hb
  rw [List.mem_singleton.mp hb]
  exact ha

end System

/-- A system whose steps are computed: in state `s` the scheduler's choice `c` gives the
label and the next state, or `none` when what was chosen cannot step. -/
structure Machine (σ χ α : Type*) where
  init : σ → Prop
  next : σ → χ → Option (α × σ)

namespace Machine

variable {σ χ α : Type*} (M : Machine σ χ α)

/-- The transition system of a machine: every choice of the scheduler may be made. -/
def system : System σ α where
  init := M.init
  step s a s' := ∃ c, M.next s c = some (a, s')

/-- Follow a schedule, as long as every choice can step. -/
def exec : σ → List χ → Option (List α × σ)
  | s, [] => some ([], s)
  | s, c :: cs => do
    let (a, s') ← M.next s c
    let (l, s'') ← exec s' cs
    return (a :: l, s'')

variable {M}

/-- What the machine executes is a run of its system. -/
theorem exec_run {s s' : σ} {cs : List χ} {l : List α} (h : M.exec s cs = some (l, s')) :
    M.system.Run s l s' := by
  induction cs generalizing s l with
  | nil => cases h; exact .nil _
  | cons c cs ih =>
    simp only [exec, Option.bind_eq_bind, Option.bind_eq_some_iff] at h
    obtain ⟨⟨a, t⟩, hnext, ⟨m, t'⟩, hexec, heq⟩ := h
    cases heq
    exact .cons ⟨c, hnext⟩ (ih hexec)

/-- The machine whose scheduler makes only the choices that `G` allows in a state. -/
def restricted (M : Machine σ χ α) (G : σ → χ → Prop) [∀ s c, Decidable (G s c)] :
    Machine σ χ α where
  init := M.init
  next s c := if G s c then M.next s c else none

/-- A step of the restricted machine is a step of the machine, by a choice that is allowed. -/
theorem restricted_next_iff {G : σ → χ → Prop} [∀ s c, Decidable (G s c)] {s : σ} {c : χ}
    {p : α × σ} : (M.restricted G).next s c = some p ↔ G s c ∧ M.next s c = some p :=
  Option.ite_none_right_eq_some

/-- A step of the restricted machine is a step of the machine. -/
theorem restricted_step {G : σ → χ → Prop} [∀ s c, Decidable (G s c)] {s s' : σ} {a : α}
    (h : (M.restricted G).system.step s a s') : M.system.step s a s' := by
  obtain ⟨c, hnext⟩ := h
  exact ⟨c, (restricted_next_iff.mp hnext).2⟩

/-- What the restricted machine reaches, the machine reaches. -/
theorem restricted_reachable {G : σ → χ → Prop} [∀ s c, Decidable (G s c)] {s : σ}
    (h : (M.restricted G).system.Reachable s) : M.system.Reachable s := by
  apply h.mono
  · exact fun _ hinit => hinit
  · exact fun _ _ _ hstep => restricted_step hstep

/-- What a schedule leads to is the end of a run. -/
theorem exec_run_get {s : σ} {cs : List χ} (h : (M.exec s cs).isSome) :
    M.system.Run s ((M.exec s cs).get h).1 ((M.exec s cs).get h).2 :=
  exec_run (Option.some_get h).symm

/-- Where a schedule leads from an initial state is reachable. -/
theorem exec_reachable {s : σ} (hs : M.init s) (cs : List χ) (h : (M.exec s cs).isSome) :
    M.system.Reachable ((M.exec s cs).get h).2 :=
  ⟨s, _, hs, exec_run_get h⟩

/-- Every choice of a schedule is one that `G` allows in the state it is made in. -/
def Along (M : Machine σ χ α) (G : σ → χ → Prop) : σ → List χ → Prop
  | _, [] => True
  | s, c :: cs => G s c ∧ ∀ a s', M.next s c = some (a, s') → Along M G s' cs

/-- Where the label of a step shows whether its choice was allowed, the labels of a run show it of
the whole schedule. -/
theorem along_iff {G : σ → χ → Prop} {P : α → Prop}
    (hG : ∀ s c a s', M.next s c = some (a, s') → (G s c ↔ P a)) {s s' : σ} {cs : List χ}
    {l : List α} (h : M.exec s cs = some (l, s')) : M.Along G s cs ↔ ∀ a ∈ l, P a := by
  induction cs generalizing s l with
  | nil =>
    cases h
    simp [Along]
  | cons c cs ih =>
    simp only [exec, Option.bind_eq_bind, Option.bind_eq_some_iff] at h
    obtain ⟨⟨a, t⟩, hnext, ⟨m, t'⟩, hexec, heq⟩ := h
    cases heq
    rw [List.forall_mem_cons, ← hG s c a t hnext, ← ih hexec]
    simp [Along, hnext]

/-- Follow a schedule, as long as every choice can step and is made in a state of `G`. -/
def execWhile (M : Machine σ χ α) (G : σ → Prop) [DecidablePred G] :
    σ → List χ → Option (List α × σ)
  | s, [] => some ([], s)
  | s, c :: cs =>
    if G s then do
      let (a, s') ← M.next s c
      let (l, s'') ← execWhile M G s' cs
      return (a :: l, s'')
    else none

/-- What is executed so is a run all of whose steps the guard allows. -/
theorem execWhile_run {G : σ → Prop} [DecidablePred G] {s s' : σ} {cs : List χ} {l : List α}
    (m : List α) (h : M.execWhile G s cs = some (l, s')) :
    (M.system.guarded fun _ s _ => G s).Run (m, s) l (m ++ l, s') := by
  induction cs generalizing s l m with
  | nil =>
    cases h
    rw [List.append_nil]
    exact .nil _
  | cons c cs ih =>
    simp only [execWhile, Option.bind_eq_bind, Option.ite_none_right_eq_some,
      Option.bind_eq_some_iff] at h
    obtain ⟨hG, ⟨a, t⟩, hnext, ⟨l', t'⟩, hexec, heq⟩ := h
    cases heq
    have hrest := ih (m ++ [a]) hexec
    rw [List.append_assoc] at hrest
    exact .cons ⟨⟨c, hnext⟩, rfl, hG⟩ hrest

/-- What a schedule leads to inside `G` is the end of such a run. -/
theorem execWhile_run_get {G : σ → Prop} [DecidablePred G] {s : σ} {cs : List χ} (m : List α)
    (h : (M.execWhile G s cs).isSome) :
    (M.system.guarded fun _ s _ => G s).Run (m, s) ((M.execWhile G s cs).get h).1
      (m ++ ((M.execWhile G s cs).get h).1, ((M.execWhile G s cs).get h).2) :=
  execWhile_run m (Option.some_get h).symm

/-- A schedule, one choice and another schedule: what is observed of the step in between and of
the run after it is so of a run of the system. -/
theorem exec_observed {β : Type*} (M : Machine σ χ α) (s : σ) (cs : List χ) (c : χ)
    (cs' : List χ) (obs : α → σ → List α → σ → β) {b : β}
    (h : ((M.exec s cs).bind fun p => (M.next p.2 c).bind fun q =>
      (M.exec q.2 cs').map fun r => obs q.1 q.2 r.1 r.2) = some b) :
    ∃ l s₁ a s₂ l' s₃, M.system.Run s l s₁ ∧ M.system.step s₁ a s₂ ∧ M.system.Run s₂ l' s₃ ∧
      obs a s₂ l' s₃ = b := by
  simp only [Option.bind_eq_some_iff, Option.map_eq_some_iff] at h
  obtain ⟨p, hp, q, hq, r, hr, hobs⟩ := h
  exact ⟨p.1, p.2, q.1, q.2, r.1, r.2, exec_run hp, ⟨c, hq⟩, exec_run hr, hobs⟩

end Machine

/-- `R` **simulates** `C` in `A`: initial states are matched, and every step of `C` is
matched by a run of `A` that shows the same observation. -/
structure Simulation {σ τ α β ε : Type*} (C : System σ α) (A : System τ β)
    (obsC : α → Option ε) (obsA : β → Option ε) (R : σ → τ → Prop) : Prop where
  init : ∀ s, C.init s → ∃ t, A.init t ∧ R s t
  step : ∀ s t a s', R s t → C.step s a s' →
    ∃ l t', A.Run t l t' ∧ l.filterMap obsA = (obsC a).toList ∧ R s' t'

namespace Simulation

variable {σ τ α β ε : Type*} {C : System σ α} {A : System τ β}
  {obsC : α → Option ε} {obsA : β → Option ε} {R : σ → τ → Prop}

/-- A simulation matches whole runs. -/
theorem run (h : Simulation C A obsC obsA R) {s s' : σ} {t : τ} {l : List α}
    (hR : R s t) (run : C.Run s l s') :
    ∃ m t', A.Run t m t' ∧ m.filterMap obsA = l.filterMap obsC ∧ R s' t' := by
  induction run generalizing t with
  | nil s => exact ⟨[], t, .nil t, rfl, hR⟩
  | cons head _ ih =>
    obtain ⟨m, t', hm, hobs, hR'⟩ := h.step _ _ _ _ hR head
    obtain ⟨m', t'', hm', hobs', hR''⟩ := ih hR'
    refine ⟨m ++ m', t'', hm.append hm', ?_, hR''⟩
    rw [List.filterMap_append, hobs, hobs', List.filterMap_cons]
    cases obsC _ <;> rfl

/-- **Trace inclusion**: every trace of the simulated system is one of the other. -/
theorem traces_subset (h : Simulation C A obsC obsA R) : C.traces obsC ⊆ A.traces obsA := by
  rintro w ⟨s₀, l, s, hinit, hrun, rfl⟩
  obtain ⟨t₀, ht₀, hR⟩ := h.init s₀ hinit
  obtain ⟨m, t, hm, hobs, -⟩ := h.run hR hrun
  exact ⟨t₀, m, t, ht₀, hm, hobs⟩

/-- Every reachable state is related to a reachable state of the other system. -/
theorem reachable (h : Simulation C A obsC obsA R) {s : σ} (hs : C.Reachable s) :
    ∃ t, A.Reachable t ∧ R s t := by
  obtain ⟨s₀, l, hinit, hrun⟩ := hs
  obtain ⟨t₀, ht₀, hR⟩ := h.init s₀ hinit
  obtain ⟨m, t, hm, -, hR'⟩ := h.run hR hrun
  exact ⟨t, ⟨t₀, m, ht₀, hm⟩, hR'⟩

end Simulation

end SystemyOperacyjne.Library
