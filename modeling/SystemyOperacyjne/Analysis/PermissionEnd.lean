import Mathlib.Algebra.Order.BigOperators.Group.Finset
import SystemyOperacyjne.Analysis.PermissionGrants
import SystemyOperacyjne.Library.Census

/-!
# When the parent comes to its end

`main` leaves `while(req<K)` only if the handler has counted `K` requests, and a request that
was dropped is never sent again. So as long as `main` has not left the loop, the parent can
still come to its end exactly if the requests that have not been dropped are `K` at least; and
once it has left the loop it can always be brought to its end, whatever is pending, wherever
the handler is and whichever children are still running.
-/

set_option autoImplicit false

namespace SystemyOperacyjne.Permission

open Library

variable {N : ℕ} {d : Delivery} {K : ℤ} {s s' : State N} {e : Option (Event N)}
  {l : List (Option (Event N))}

/-- `main` has not left `while(req<K)`. -/
def MainPc.counting : MainPc → Bool
  | .fork _ | .waitRequests => true
  | .walk _ | .permit _ | .setPermAfter | .callWait _ | .waitChild _ | .ended => false

/-! ## What can still be counted -/

/-- Every request is counted, dropped or still on its way, and no child has sent two. -/
theorem Accounts.req_add_dropped_le (h : Accounts d l s) : s.req + ∑ c, dropped d l c ≤ N := by
  rw [h.req, ← Finset.sum_add_distrib]
  calc ∑ c, (l.count (some (.count c)) + dropped d l c) ≤ ∑ _c : Fin N, 1 := by
        apply Finset.sum_le_sum
        intro c _
        have hplace := h.place c
        have honce := h.once c
        omega
    _ = N := by simp

/-- What has been dropped stays so. -/
theorem dropped_le_append (m : List (Option (Event N))) (c : Fin N) :
    dropped d l c ≤ dropped d (l ++ m) c := by
  cases d with
  | queued => exact Nat.le_refl _
  | standard =>
    simp only [dropped, List.count_append]
    omega

/-- Nothing is dropped when no request finds another one pending. -/
theorem dropped_concat (he : ∀ c, e ≠ some (.request c true)) (c : Fin N) :
    dropped d (l ++ [e]) c = dropped d l c := by
  cases d with
  | queued => rfl
  | standard => exact count_concat_of_ne (he c)

/-- An interruption does not end the loop. -/
theorem MainPc.counting_interrupted (pc : MainPc) : pc.interrupted.counting = pc.counting := by
  cases pc <;> rfl

/-- `main` leaves the loop only when `K` requests have been counted. -/
theorem Step.enough (h : Step d K s e s') (hs : s.main.counting = true)
    (hs' : s'.main.counting = false) : K ≤ s.req := by
  cases h with
  | fork hi idle pc => cases hs'
  | permit hi idle pc =>
    rw [pc] at hs
    cases hs
  | setPermAfter idle pc =>
    rw [pc] at hs
    cases hs
  | control idle move =>
    cases move with
    | forked pc => cases hs'
    | spin pc => cases hs'
    | enough pc req => exact req
    | skip hi pc _ | find hi pc _ | walked hi pc | call pc | finish pc | reap pc =>
      rw [pc] at hs
      cases hs
  | handlerTest pc | handlerPermit pc | handlerRecord pc | handlerCount pc | request pc
  | child born late =>
    rw [show s.main.counting = false from hs'] at hs
    cases hs
  | deliver idle mem | realtime =>
    rw [← MainPc.counting_interrupted] at hs
    rw [show s.main.interrupted.counting = false from hs'] at hs
    cases hs

/-- Having left the loop, `main` does not come back to it. -/
theorem Step.counting (h : Step d K s e s') (hs : s.main.counting = false) :
    s'.main.counting = false := by
  cases h with
  | fork hi idle pc =>
    rw [pc] at hs
    cases hs
  | permit hi idle pc => rfl
  | setPermAfter idle pc => rfl
  | control idle move =>
    cases move with
    | forked pc | spin pc =>
      rw [pc] at hs
      cases hs
    | enough pc req | skip hi pc _ | find hi pc _ | walked hi pc | call pc | finish pc
    | reap pc => rfl
  | handlerTest pc | handlerPermit pc | handlerRecord pc | handlerCount pc | request pc
  | child born late => exact hs
  | deliver idle mem | realtime => exact (MainPc.counting_interrupted s.main).trans hs

/-- `main` has left the loop, or the requests that are not dropped are enough for it. -/
def Enough (d : Delivery) (K : ℤ) (l : List (Option (Event N))) (s : State N) : Prop :=
  s.main.counting = false ∨ K + ∑ c, (dropped d l c : ℤ) ≤ N

/-- A step at which nothing is dropped takes nothing away. -/
theorem Enough.step (h : Enough d K l s) (hstep : Step d K s e s')
    (he : ∀ c, e ≠ some (.request c true)) : Enough d K (l ++ [e]) s' := by
  unfold Enough at h ⊢
  simp only [dropped_concat he]
  rcases h with hleft | hle
  · exact .inl (hstep.counting hleft)
  · exact .inr hle

/-- Only enough requests let `main` leave the loop. -/
theorem Enough.of_ended {m : List (Option (Event N))}
    (run : (program N d K).system.Run s m s') (h : Accounts d l s) (hend : s'.main = .ended) :
    Enough d K l s := by
  induction run generalizing l with
  | nil s =>
    left
    rw [hend]
    rfl
  | @cons s t s' e m head tail ih =>
    have hstep := Step.of_system head
    cases hs : s.main.counting with
    | false => exact .inl hs
    | true =>
      right
      rcases ih (h.step hstep) hend with hleft | hle
      · have hK := hstep.enough hs hleft
        have hreq := h.req_add_dropped_le
        have hcast : ((∑ c, dropped d l c : ℕ) : ℤ) = ∑ c, (dropped d l c : ℤ) := by push_cast; rfl
        omega
      · have hmono : ∑ c, (dropped d l c : ℤ) ≤ ∑ c, (dropped d (l ++ [e]) c : ℤ) := by
          apply Finset.sum_le_sum
          intro c _
          exact_mod_cast dropped_le_append [e] c
        omega

/-! ## Where the children are -/

/-- **What stands fast about `main` and the children**: those not born yet are those that `main`
has still to fork, a child that is past its request has sent it, unless there is no parent any
more, and `main` is at no child's `kill` or `waitpid` but those there are. -/
structure Orderly (l : List (Option (Event N))) (s : State N) : Prop where
  unborn : ∀ c, (s.child c).pc = .unborn → ∃ i ≤ (c : ℕ), s.main = .fork i
  sent : s.main ≠ .ended → ∀ c, (s.child c).pc.early = false → 0 < requests l c
  permit : ∀ i, s.main = .permit i → i < N
  wait : ∀ i, s.main = .waitChild i → i < N

/-- There are no fewer requests later on. -/
theorem requests_le_append (m : List (Option (Event N))) (c : Fin N) :
    requests l c ≤ requests (l ++ m) c := by
  simp only [requests, List.count_append]
  omega

/-- What leaves the children where they are, and `main` at its forks. -/
theorem Orderly.frame (h : Orderly l s) (child : ∀ c, (s'.child c).pc = (s.child c).pc)
    (fork : ∀ i < N, s.main = .fork i → s'.main = .fork i)
    (running : s'.main ≠ .ended → s.main ≠ .ended)
    (permit : ∀ i, s'.main = .permit i → i < N) (wait : ∀ i, s'.main = .waitChild i → i < N) :
    Orderly (l ++ [e]) s' := by
  constructor
  · intro c hc
    rw [child c] at hc
    obtain ⟨i, hi, hm⟩ := h.unborn c hc
    exact ⟨i, hi, fork i (by omega) hm⟩
  · intro hrun c hc
    rw [child c] at hc
    exact (h.sent (running hrun) c hc).trans_le (requests_le_append [e] c)
  · exact permit
  · exact wait

/-- `main` goes elsewhere by itself, its forks behind it. -/
theorem Orderly.control (h : Orderly l s) {pc : MainPc} (hfork : ∀ i, s.main ≠ .fork i)
    (running : s.main ≠ .ended)
    (permit : ∀ i, pc = .permit i → i < N) (wait : ∀ i, pc = .waitChild i → i < N) :
    Orderly (l ++ [none]) { s with main := pc } := by
  apply h.frame
  · exact fun _ => rfl
  · intro i _ hf
    exact absurd hf (hfork i)
  · exact fun _ => running
  · exact permit
  · exact wait

/-- A child that has been born goes on, and has sent its request when it is past it. -/
theorem Orderly.move (h : Orderly l s) (c : Fin N) (pc : ChildPc) (born : pc ≠ .unborn)
    (main : s'.main = s.main) (child : s'.child = (s.moveChild c pc).child)
    (sent : s.main ≠ .ended → pc.early = false → 0 < requests (l ++ [e]) c) :
    Orderly (l ++ [e]) s' := by
  constructor
  · intro x hx
    rw [child] at hx
    by_cases hne : x = c
    · subst hne
      rw [State.moveChild_self] at hx
      exact absurd hx born
    · rw [State.moveChild_of_ne hne] at hx
      rw [main]
      exact h.unborn x hx
  · intro hrun x hx
    rw [main] at hrun
    rw [child] at hx
    by_cases hne : x = c
    · subst hne
      rw [State.moveChild_self] at hx
      exact sent hrun hx
    · rw [State.moveChild_of_ne hne] at hx
      exact (h.sent hrun x hx).trans_le (requests_le_append [e] x)
  · rw [main]
    exact h.permit
  · rw [main]
    exact h.wait

/-- A step of `main` keeps it. -/
theorem Orderly.mainStep (h : Orderly l s) (hstep : mainStep K s = some (e, s')) :
    Orderly (l ++ [e]) s' := by
  unfold Permission.mainStep at hstep
  split at hstep
  · rename_i i hm
    split at hstep
    · rename_i hi
      cases hstep
      constructor
      · intro c hc
        by_cases hne : c = ⟨i, hi⟩
        · subst hne
          simp at hc
        · simp only [State.moveChild_of_ne hne] at hc
          obtain ⟨j, hj, hfork⟩ := h.unborn c hc
          rw [hm] at hfork
          cases hfork
          have hval : (c : ℕ) ≠ i := fun heq => hne (Fin.ext heq)
          exact ⟨i + 1, by omega, rfl⟩
      · intro _ c hc
        by_cases hne : c = ⟨i, hi⟩
        · subst hne
          simp [ChildPc.early] at hc
        · simp only [State.moveChild_of_ne hne] at hc
          exact (h.sent (by simp [hm]) c hc).trans_le (requests_le_append [none] c)
      · intro j hj
        cases hj
      · intro j hj
        cases hj
    · rename_i hi
      cases hstep
      apply h.frame
      · exact fun _ => rfl
      · intro j hj hfork
        rw [hm] at hfork
        cases hfork
        exact absurd hj hi
      · simp [hm]
      · intro j hj
        cases hj
      · intro j hj
        cases hj
  · rename_i hm
    cases hstep
    split
    · exact h.frame (fun _ => rfl) (fun _ _ hfork => hfork) id h.permit h.wait
    · exact h.control (by simp [hm]) (by simp [hm]) (by simp) (by simp)
  · rename_i i hm
    split at hstep
    · rename_i hi
      cases hstep
      cases hc : s.cReq ⟨i, hi⟩ with
      | true => exact h.control (by simp [hm]) (by simp [hm]) (by simpa using hi) (by simp)
      | false => exact h.control (by simp [hm]) (by simp [hm]) (by simp) (by simp)
    · cases hstep
      exact h.control (by simp [hm]) (by simp [hm]) (by simp) (by simp)
  · rename_i i hm
    split at hstep
    · rename_i hi
      cases hstep
      apply h.frame
      · exact State.permitChild_pc ⟨i, hi⟩
      · intro j _ hfork
        rw [hm] at hfork
        cases hfork
      · simp [hm]
      · simp
      · simp
    · cases hstep
  · rename_i hm
    cases hstep
    apply h.frame
    · exact fun _ => rfl
    · intro j _ hfork
      rw [hm] at hfork
      cases hfork
    · simp [hm]
    · simp
    · simp
  · rename_i i hm
    cases hstep
    by_cases hi : i < N
    · rw [if_pos hi]
      exact h.control (by simp [hm]) (by simp [hm]) (by simp) (by simpa using hi)
    · rw [if_neg hi]
      exact h.control (by simp [hm]) (by simp [hm]) (by simp) (by simp)
  · rename_i i hm
    split at hstep
    · split at hstep
      · cases hstep
        exact h.control (by simp [hm]) (by simp [hm]) (by simp) (by simp)
      · cases hstep
    · cases hstep
  · cases hstep

/-- A step of the handler keeps it. -/
theorem Orderly.handlerStep (h : Orderly l s) (hstep : handlerStep s = some (e, s')) :
    Orderly (l ++ [e]) s' := by
  unfold Permission.handlerStep at hstep
  split at hstep
  · cases hstep
    exact h.frame (fun _ => rfl) (fun _ _ hfork => hfork) id h.permit h.wait
  · cases hstep
    exact h.frame (State.permitChild_pc _) (fun _ _ hfork => hfork) id h.permit h.wait
  · cases hstep
    exact h.frame (fun _ => rfl) (fun _ _ hfork => hfork) id h.permit h.wait
  · cases hstep
    exact h.frame (fun _ => rfl) (fun _ _ hfork => hfork) id h.permit h.wait
  · cases hstep

/-- A step of a child keeps it. -/
theorem Orderly.childStep (h : Orderly l s) {c : Fin N} {woken : Bool}
    (hstep : childStep d s c woken = some (e, s')) : Orderly (l ++ [e]) s' := by
  have hsent : s.main ≠ .ended → (s.child c).pc.early = false → 0 < requests (l ++ [e]) c :=
    fun hrun hc => (h.sent hrun c hc).trans_le (requests_le_append [e] c)
  unfold Permission.childStep at hstep
  split at hstep
  · cases hstep
  · split at hstep
    · rename_i hend
      cases hstep
      exact h.move c .wait (by simp) rfl rfl fun hrun => absurd hend hrun
    · cases hstep
      apply h.move c .wait
      · simp
      · rfl
      · rfl
      · intro _ _
        rw [requests_concat_self]
        exact Nat.succ_pos _
  · rename_i hc
    rw [hc] at hsent
    split at hstep
    · split at hstep
      · cases hstep
        exact h.move c _ (by simp) rfl rfl fun hrun _ => hsent hrun rfl
      · cases hstep
    · cases hstep
      exact h.move c _ (by simp) rfl rfl fun hrun _ => hsent hrun rfl
  · rename_i hc
    rw [hc] at hsent
    split at hstep
    · cases hstep
      exact h.move c _ (by simp) rfl rfl fun hrun _ => hsent hrun rfl
    · cases hstep
      exact h.move c .exited (by simp) rfl rfl fun hrun _ => hsent hrun rfl
  · cases hstep

/-- A wait for a child that is interrupted is over. -/
theorem interrupted_ne_waitChild (pc : MainPc) (i : ℕ) : pc.interrupted ≠ .waitChild i := by
  cases pc <;> simp [MainPc.interrupted]

/-- A signal comes to the parent. -/
theorem Orderly.interrupted (h : Orderly l s) (child : s'.child = s.child)
    (main : s'.main = s.main.interrupted) (running : s.main ≠ .ended) :
    Orderly (l ++ [none]) s' := by
  apply h.frame
  · intro c
    rw [child]
  · intro i _ hm
    rw [main, hm]
    rfl
  · exact fun _ => running
  · intro i hm
    rw [main] at hm
    exact h.permit i (interrupted_eq_permit hm)
  · intro i hm
    rw [main] at hm
    exact absurd hm (interrupted_ne_waitChild _ i)

/-- **Every step keeps it.** -/
theorem Orderly.step (h : Orderly l s) (hstep : (program N d K).system.step s e s') :
    Orderly (l ++ [e]) s' := by
  obtain ⟨choice, hstep⟩ := hstep
  cases choice with
  | main =>
    by_cases hidle : s.handler = none
    · simp only [program, next, if_pos hidle] at hstep
      exact h.mainStep hstep
    · simp only [program, next, if_neg hidle] at hstep
      cases hstep
  | handler => exact h.handlerStep hstep
  | deliver c =>
    by_cases hc : s.handler = none ∧ c ∈ s.pending ∧ s.main ≠ .ended
    · simp only [program, next, if_pos hc] at hstep
      cases hstep
      exact h.interrupted rfl rfl hc.2.2
    · simp only [program, next, if_neg hc] at hstep
      cases hstep
  | realtime =>
    by_cases hc : 0 < s.realtime ∧ s.main ≠ .ended
    · simp only [program, next, if_pos hc] at hstep
      cases hstep
      exact h.interrupted rfl rfl hc.2
    · simp only [program, next, if_neg hc] at hstep
      cases hstep
  | child c woken => exact h.childStep hstep

/-- So it is in the beginning. -/
theorem orderly_start : Orderly [] (start N) := by
  constructor
  · intro c _
    exact ⟨0, Nat.zero_le _, rfl⟩
  · intro _ c hc
    cases hc
  · intro i hm
    cases hm
  · intro i hm
    cases hm

/-- What stands fast in every run. -/
theorem orderly (run : (program N d K).system.Run (start N) l s) : Orderly l s :=
  run.history_induction (fun _ _ _ _ h hstep => h.step hstep) orderly_start

/-! ## Bringing it to its end -/

/-- How far `main` is from its end. -/
def MainPc.rank (N : ℕ) : MainPc → ℕ
  | .fork i => 4 * N + 6 + (N - i)
  | .waitRequests => 4 * N + 5
  | .walk i => 2 * N + 4 + 2 * (N - i)
  | .permit i => 2 * N + 3 + 2 * (N - i)
  | .setPermAfter => 2 * N + 3
  | .callWait i => 2 * (N - i) + 2
  | .waitChild i => 2 * (N - i) + 1
  | .ended => 0

/-- How far a run of the handler is from its end. -/
def HandlerPc.rank : HandlerPc → ℕ
  | .testPermAfter => 3
  | .permit | .record => 2
  | .count => 1

/-- How far a child is from its end, the request it may send not counted. -/
def ChildPc.rank : ChildPc → ℕ
  | .unborn | .work => 2
  | .wait | .answer => 1
  | .exited => 0

/-- How far the program is from the end of the parent. A request that is sent has to be
handled, and what a child does weighs as much as that. -/
def State.rank (s : State N) : ℕ :=
  s.main.rank N + (s.handler.elim 0 fun run => run.1.rank) + 5 * s.pending.length +
    6 * census ChildPc.rank fun c => (s.child c).pc

/-- A child's step takes its difference from the rank of the children. -/
theorem census_moveChild (c : Fin N) (pc : ChildPc) :
    (census ChildPc.rank fun x => ((s.moveChild c pc).child x).pc) + (s.child c).pc.rank =
      (census ChildPc.rank fun x => (s.child x).pc) + pc.rank := by
  have hpcs : (fun x => ((s.moveChild c pc).child x).pc) =
      Function.update (fun x => (s.child x).pc) c pc := by
    funext x
    by_cases hx : x = c
    · subst hx
      simp
    · rw [State.moveChild_of_ne hx, Function.update_of_ne hx]
  rw [hpcs]
  exact census_update ChildPc.rank (fun x => (s.child x).pc) c pc

/-- An interruption takes `main` no further from its end. -/
theorem MainPc.rank_interrupted {pc : MainPc} (h : ∀ i, pc = .waitChild i → i < N) :
    pc.interrupted.rank N ≤ pc.rank N := by
  cases pc with
  | waitChild i =>
    have hi := h i rfl
    simp only [MainPc.interrupted, MainPc.rank]
    omega
  | _ => exact Nat.le_refl _

/-- There is a step that drops nothing and brings the parent closer to its end. -/
def Closer (d : Delivery) (K : ℤ) (s : State N) : Prop :=
  ∃ e s', (program N d K).system.step s e s' ∧ (∀ c, e ≠ some (.request c true)) ∧
    s'.rank < s.rank

/-- A choice with such a step is enough. -/
theorem Closer.of_next (choice : Choice N) (h : next d K s choice = some (e, s'))
    (he : ∀ c, e ≠ some (.request c true)) (hrank : s'.rank < s.rank) : Closer d K s :=
  ⟨e, s', ⟨choice, h⟩, he, hrank⟩

/-- The handler comes to its end. -/
theorem closer_handler {run : HandlerPc × Fin N} (busy : s.handler = some run) :
    Closer d K s := by
  obtain ⟨pc, c⟩ := run
  cases pc with
  | testPermAfter =>
    have hnext : next d K s .handler = some (none,
        { s with handler := some (if s.permAfter then .permit else .record, c) }) := by
      simp only [next, handlerStep, busy]
    apply Closer.of_next _ hnext (by simp)
    simp only [State.rank, busy]
    cases s.permAfter <;> simp [HandlerPc.rank]
  | permit =>
    have hnext : next d K s .handler = some (some (.permit c),
        { s.permitChild c with handler := some (.count, c) }) := by
      simp only [next, handlerStep, busy]
    apply Closer.of_next _ hnext (by simp)
    simp only [State.rank, busy, State.permitChild_pc]
    simp [HandlerPc.rank, State.permitChild]
  | record =>
    have hnext : next d K s .handler = some (some (.record c (s.main.passed c)),
        { s with cReq := Function.update s.cReq c true, handler := some (.count, c) }) := by
      simp only [next, handlerStep, busy]
    apply Closer.of_next _ hnext (by simp)
    simp [State.rank, busy, HandlerPc.rank]
  | count =>
    have hnext : next d K s .handler = some (some (.count c),
        { s with req := s.req + 1, handler := none }) := by
      simp only [next, handlerStep, busy]
    apply Closer.of_next _ hnext (by simp)
    simp [State.rank, busy, HandlerPc.rank]

/-- A pending request is handled. -/
theorem closer_deliver (h : Orderly l s) (idle : s.handler = none) (running : s.main ≠ .ended)
    {c : Fin N} (mem : c ∈ s.pending) : Closer d K s := by
  apply Closer.of_next (.deliver c) (if_pos ⟨idle, mem, running⟩) (by simp)
  have hmain := MainPc.rank_interrupted h.wait
  have hlength := List.length_erase_of_mem mem
  have hpos := List.length_pos_of_mem mem
  simp only [State.rank, idle, hlength, Option.elim, HandlerPc.rank]
  omega

/-- A child that has been born goes on, if nothing is pending. -/
theorem closer_child (running : s.main ≠ .ended) (free : s.pending = []) {c : Fin N}
    (born : (s.child c).pc ≠ .unborn) (alive : (s.child c).pc ≠ .exited) : Closer d K s := by
  cases hc : (s.child c).pc with
  | unborn => exact absurd hc born
  | exited => exact absurd hc alive
  | work =>
    have hcensus := census_moveChild (s := s) c .wait
    refine ⟨some (.request c false), { s.moveChild c .wait with pending := [c] },
      ⟨.child c false, ?_⟩, by simp, ?_⟩
    · simp only [program, next, childStep, hc, if_neg running, free]
      cases d <;> rfl
    · rw [hc] at hcensus
      simp only [State.rank, free, List.length_cons, List.length_nil]
      simp only [ChildPc.rank, State.moveChild] at hcensus ⊢
      omega
  | wait =>
    have hcensus := census_moveChild (s := s) c .exited
    refine ⟨none, s.moveChild c .exited, ⟨.child c false, ?_⟩, by simp, ?_⟩
    · simp only [program, next, childStep, hc]
      rfl
    · rw [hc] at hcensus
      simp only [State.rank]
      simp only [ChildPc.rank, State.moveChild] at hcensus ⊢
      omega
  | answer =>
    have hcensus := census_moveChild (s := s) c .exited
    refine ⟨none, { s.moveChild c .exited with realtime := s.realtime + 1 },
      ⟨.child c false, ?_⟩, by simp, ?_⟩
    · simp only [program, next, childStep, hc, if_neg running]
    · rw [hc] at hcensus
      simp only [State.rank]
      simp only [ChildPc.rank, State.moveChild] at hcensus ⊢
      omega

/-- While `main` waits for requests that have not been counted, some child has not sent its
own, if none is pending or handled and enough are left. -/
theorem exists_early (h : Accounts d l s) (ho : Orderly l s)
    (hsum : K + ∑ c, (dropped d l c : ℤ) ≤ N) (idle : s.handler = none)
    (free : s.pending = []) (hm : s.main = .waitRequests) (hreq : s.req < K) :
    ∃ c, (s.child c).pc = .work := by
  by_contra hnone
  push Not at hnone
  have hall : ∀ c, l.count (some (.count c)) + dropped d l c = 1 := by
    intro c
    have hearly : (s.child c).pc.early = false := by
      cases hc : (s.child c).pc with
      | unborn =>
        obtain ⟨i, -, hfork⟩ := ho.unborn c hc
        rw [hm] at hfork
        cases hfork
      | work => exact absurd hc (hnone c)
      | wait | answer | exited => rfl
    have hsent := ho.sent (by simp [hm]) c hearly
    have honce := h.once c
    have hplace := h.place c
    simp only [free, State.handling, idle, List.count_nil] at hplace
    omega
  have htotal : s.req + ∑ c, dropped d l c = N := by
    rw [h.req, ← Finset.sum_add_distrib, Finset.sum_congr rfl fun c _ => hall c]
    simp
  have hcast : ((∑ c, dropped d l c : ℕ) : ℤ) = ∑ c, (dropped d l c : ℤ) := by push_cast; rfl
  omega

/-- `main` goes on by itself, except where it waits for requests or for a child. -/
theorem closer_main (pc : MainPc) (idle : s.handler = none)
    (hstep : mainStep K s = some (none, { s with main := pc }))
    (hrank : pc.rank N < s.main.rank N) : Closer d K s := by
  apply Closer.of_next .main ((if_pos idle).trans hstep) (by simp)
  simp only [State.rank]
  omega

/-- `main` forks a child, or has forked them all. -/
theorem closer_fork (h : Accounts d l s) (idle : s.handler = none) {i : ℕ}
    (hm : s.main = .fork i) : Closer d K s := by
  by_cases hi : i < N
  · have hnext : next d K s .main =
        some (none, { s.moveChild ⟨i, hi⟩ .work with main := .fork (i + 1) }) := by
      rw [next, if_pos idle]
      simp only [mainStep, hm, dif_pos hi]
    have hcensus := census_moveChild (s := s) ⟨i, hi⟩ .work
    rw [h.unborn i ⟨i, hi⟩ hm (Nat.le_refl i)] at hcensus
    apply Closer.of_next _ hnext (by simp)
    simp only [State.rank, hm]
    simp only [MainPc.rank, ChildPc.rank, State.moveChild] at hcensus ⊢
    omega
  · apply closer_main .waitRequests idle
    · simp only [mainStep, hm, dif_neg hi]
    · simp only [hm, MainPc.rank]
      omega

/-- `main` permits a child it has found in `CReq`. -/
theorem closer_permit (idle : s.handler = none) {i : ℕ} (hm : s.main = .permit i) (hi : i < N) :
    Closer d K s := by
  have hnext : next d K s .main = some (some (.permit ⟨i, hi⟩),
      { s.permitChild ⟨i, hi⟩ with main := .walk (i + 1) }) := by
    rw [next, if_pos idle]
    simp only [mainStep, hm, dif_pos hi]
  apply Closer.of_next _ hnext (by simp)
  simp only [State.rank, hm, State.permitChild_pc]
  simp only [MainPc.rank, State.permitChild]
  omega

/-- **Until the parent has ended it can be brought closer to its end.** The handler comes first,
then what is pending, then `main`, and only when `main` waits a child. -/
theorem closer (h : Accounts d l s) (ho : Orderly l s) (henough : Enough d K l s)
    (running : s.main ≠ .ended) : Closer d K s := by
  cases hidle : s.handler with
  | some run => exact closer_handler hidle
  | none =>
    cases hfree : s.pending with
    | cons c rest => exact closer_deliver ho hidle running (by rw [hfree]; exact List.mem_cons_self)
    | nil =>
      cases hm : s.main with
      | fork i => exact closer_fork h hidle hm
      | waitRequests =>
        by_cases hreq : s.req < K
        · have hsum := henough.resolve_left (by simp [hm, MainPc.counting])
          obtain ⟨c, hc⟩ := exists_early h ho hsum hidle hfree hm hreq
          exact closer_child (c := c) running hfree (by simp [hc]) (by simp [hc])
        · apply closer_main (.walk 0) hidle
          · simp only [mainStep, hm, if_neg hreq]
          · simp only [hm, MainPc.rank]
            omega
      | walk i =>
        by_cases hi : i < N
        · apply closer_main (if s.cReq ⟨i, hi⟩ then .permit i else .walk (i + 1)) hidle
          · simp only [mainStep, hm, dif_pos hi]
          · simp only [hm]
            cases s.cReq ⟨i, hi⟩ with
            | true =>
              simp only [if_true, MainPc.rank]
              omega
            | false =>
              simp only [Bool.false_eq_true, if_false, MainPc.rank]
              omega
        · apply closer_main .setPermAfter hidle
          · simp only [mainStep, hm, dif_neg hi]
          · simp only [hm, MainPc.rank]
            omega
      | permit i => exact closer_permit hidle hm (ho.permit i hm)
      | setPermAfter =>
        have hnext : next d K s .main =
            some (none, { s with permAfter := true, main := .callWait 0 }) := by
          rw [next, if_pos hidle]
          simp only [mainStep, hm]
        apply Closer.of_next _ hnext (by simp)
        simp only [State.rank, hm, MainPc.rank]
        omega
      | callWait i =>
        apply closer_main (if i < N then .waitChild i else .ended) hidle
        · simp only [mainStep, hm]
        · simp only [hm]
          by_cases hi : i < N
          · simp only [if_pos hi, MainPc.rank]
            omega
          · simp only [if_neg hi, MainPc.rank]
            omega
      | waitChild i =>
        have hi := ho.wait i hm
        by_cases hc : (s.child ⟨i, hi⟩).pc = .exited
        · apply closer_main (.callWait (i + 1)) hidle
          · simp only [mainStep, hm, dif_pos hi, if_pos hc]
          · simp only [hm, MainPc.rank]
            omega
        · apply closer_child running hfree _ hc
          intro hunborn
          obtain ⟨j, -, hfork⟩ := ho.unborn _ hunborn
          rw [hm] at hfork
          cases hfork
      | ended => exact absurd hm running

/-- A state of a run in which enough requests are left. -/
def Going (d : Delivery) (K : ℤ) (s : State N) : Prop :=
  ∃ l, (program N d K).system.Run (start N) l s ∧ Enough d K l s

/-- The way to the end, on which nothing more is dropped. -/
theorem Going.can_end (h : Going d K s) : ∃ m s', (program N d K).system.Run s m s' ∧
    (∀ e ∈ m, ∀ c, e ≠ some (.request c true)) ∧ s'.main = .ended ∧ Going d K s' := by
  apply System.drain (fun e : Option (Event N) => ∀ c : Fin N, e ≠ some (.request c true))
    State.rank _ h
  intro s hs hrunning
  obtain ⟨l, hrun, henough⟩ := hs
  obtain ⟨e, s', hstep, he, hrank⟩ := closer (accounts hrun) (orderly hrun) henough hrunning
  exact ⟨e, s', hstep, he,
    ⟨l ++ [e], hrun.append (.single hstep), henough.step (.of_system hstep) he⟩, hrank⟩

/-- **When the parent can end**: from a state of a run some way leads to the end of `main` exactly
if `main` has left `while(req<K)` already, or the requests that have been dropped leave at least
`K` of the `N`. What else has happened does not matter.
SOURCE: cw04/zad2/main.c:24-42, cw04/zad2/main.c:79-129 -/
theorem parent_can_end_iff (run : (program N d K).system.Run (start N) l s) :
    (∃ m s', (program N d K).system.Run s m s' ∧ s'.main = .ended) ↔
      s.main.counting = false ∨ K + ∑ c, (dropped d l c : ℤ) ≤ N := by
  constructor
  · rintro ⟨m, s', hrun, hend⟩
    exact Enough.of_ended hrun (accounts run) hend
  · intro henough
    obtain ⟨m, s', hrun, -, hend, -⟩ := Going.can_end ⟨l, run, henough⟩
    exact ⟨m, s', hrun, hend⟩

/-- For the numerals of `Fin 2`. -/
local instance twoChildren : NeZero 2 := ⟨by decide⟩

/-- Two children ask, the second while the request of the first is pending. -/
def askedTwice : List (Choice 2) :=
  [.main, .main, .main, .child 0 false, .child 1 false]

/-- What comes of it when one request is enough. -/
def oneEnough : List (Option (Event 2)) × State 2 :=
  ((program 2 .standard 1).exec (start 2) askedTwice).get (by decide +kernel)

/-- What comes of it when both are needed. -/
def bothNeeded : List (Option (Event 2)) × State 2 :=
  ((program 2 .standard 2).exec (start 2) askedTwice).get (by decide +kernel)

/-- With one of two requests dropped the parent can end if it waits for one, and not if it waits for
two. -/
theorem parent_can_end_iff_asked :
    (∃ m s', (program 2 .standard 1).system.Run oneEnough.2 m s' ∧ s'.main = .ended) ∧
      ¬ ∃ m s', (program 2 .standard 2).system.Run bothNeeded.2 m s' ∧ s'.main = .ended := by
  constructor
  · apply (parent_can_end_iff (l := oneEnough.1) _).mpr
    · decide +kernel
    · unfold oneEnough
      exact Machine.exec_run_get _
  · intro hends
    have hrun : (program 2 .standard 2).system.Run (start 2) bothNeeded.1 bothNeeded.2 := by
      unfold bothNeeded
      exact Machine.exec_run_get _
    exact absurd ((parent_can_end_iff hrun).mp hends) (by decide +kernel)

end SystemyOperacyjne.Permission
