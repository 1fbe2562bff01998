import Mathlib.Algebra.BigOperators.Ring.Finset
import Mathlib.Data.Fintype.BigOperators
import SystemyOperacyjne.Model.Permission

/-!
# Where a request is

A request that has been sent is pending, or the handler is running for it, or it has been
counted, or it was dropped because another one was pending: exactly one of these, in every
state of every run (`Accounts.place`). `req` is the number of those counted.
-/

set_option autoImplicit false

namespace SystemyOperacyjne.Permission

open Library

variable {N : ℕ} {d : Delivery} {K : ℤ} {s s' : State N} {e : Option (Event N)}
  {l : List (Option (Event N))}

/-- How often `SIGUSR1` was sent by child `c`. -/
def requests (l : List (Option (Event N))) (c : Fin N) : ℕ :=
  l.count (some (.request c true)) + l.count (some (.request c false))

/-- How many requests of child `c` were dropped. -/
def dropped (d : Delivery) (l : List (Option (Event N))) (c : Fin N) : ℕ :=
  match d with
  | .queued => 0
  | .standard => l.count (some (.request c true))

/-- `1` while the handler runs for child `c`. -/
def State.handling (s : State N) (c : Fin N) : ℕ :=
  match s.handler with
  | some (_, x) => if x = c then 1 else 0
  | none => 0

/-- The child has not sent its request. -/
def ChildPc.early : ChildPc → Bool
  | .unborn | .work => true
  | .wait | .answer | .exited => false

/-! ## What the steps change -/

/-- Where `main` can go by itself, leaving everything else as it is. -/
inductive Control (K : ℤ) (s : State N) : MainPc → Prop
  | forked {i : ℕ} (pc : s.main = .fork i) : Control K s .waitRequests
  | spin (pc : s.main = .waitRequests) : Control K s .waitRequests
  | enough (pc : s.main = .waitRequests) (req : K ≤ s.req) : Control K s (.walk 0)
  | skip {i : ℕ} (hi : i < N) (pc : s.main = .walk i) (free : s.cReq ⟨i, hi⟩ = false) :
      Control K s (.walk (i + 1))
  | find {i : ℕ} (hi : i < N) (pc : s.main = .walk i) (taken : s.cReq ⟨i, hi⟩ = true) :
      Control K s (.permit i)
  | walked {i : ℕ} (hi : N ≤ i) (pc : s.main = .walk i) : Control K s .setPermAfter
  | call {i : ℕ} (pc : s.main = .callWait i) : Control K s (.waitChild i)
  | finish {i : ℕ} (pc : s.main = .callWait i) : Control K s .ended
  | reap {i : ℕ} (pc : s.main = .waitChild i) : Control K s (.callWait (i + 1))

/-- **What a step is**, one case a kind of step. -/
inductive Step (d : Delivery) (K : ℤ) (s : State N) : Option (Event N) → State N → Prop
  | fork {i : ℕ} (hi : i < N) (idle : s.handler = none) (pc : s.main = .fork i) :
      Step d K s none { s.moveChild ⟨i, hi⟩ .work with main := .fork (i + 1) }
  | permit {i : ℕ} (hi : i < N) (idle : s.handler = none) (pc : s.main = .permit i) :
      Step d K s (some (.permit ⟨i, hi⟩)) { s.permitChild ⟨i, hi⟩ with main := .walk (i + 1) }
  | setPermAfter (idle : s.handler = none) (pc : s.main = .setPermAfter) :
      Step d K s none { s with permAfter := true, main := .callWait 0 }
  | control {pc : MainPc} (idle : s.handler = none) (move : Control K s pc) :
      Step d K s none { s with main := pc }
  | handlerTest {c : Fin N} (pc : s.handler = some (.testPermAfter, c)) :
      Step d K s none { s with handler := some (if s.permAfter then .permit else .record, c) }
  | handlerPermit {c : Fin N} (pc : s.handler = some (.permit, c)) :
      Step d K s (some (.permit c)) { s.permitChild c with handler := some (.count, c) }
  | handlerRecord {c : Fin N} (pc : s.handler = some (.record, c)) :
      Step d K s (some (.record c (s.main.passed c)))
        { s with cReq := Function.update s.cReq c true, handler := some (.count, c) }
  | handlerCount {c : Fin N} (pc : s.handler = some (.count, c)) :
      Step d K s (some (.count c)) { s with req := s.req + 1, handler := none }
  | deliver {c : Fin N} (idle : s.handler = none) (mem : c ∈ s.pending) :
      Step d K s none { s with pending := s.pending.erase c, handler := some (.testPermAfter, c),
                               main := s.main.interrupted }
  | realtime : Step d K s none { s with realtime := s.realtime - 1, main := s.main.interrupted }
  | request {c : Fin N} (pc : (s.child c).pc = .work) :
      Step d K s (some (.request c (!s.pending.isEmpty)))
        { s.moveChild c .wait with pending := d.post s.pending c }
  | child {c : Fin N} {pc : ChildPc} {rt : ℕ} (born : (s.child c).pc ≠ .unborn)
      (late : pc.early = false) : Step d K s none { s.moveChild c pc with realtime := rt }

/-- What `main` does is a step. -/
theorem Step.of_mainStep (idle : s.handler = none) (h : mainStep K s = some (e, s')) :
    Step d K s e s' := by
  unfold mainStep at h
  split at h
  · rename_i i hm
    split at h
    · cases h
      exact .fork _ idle hm
    · cases h
      exact .control idle (.forked hm)
  · rename_i hm
    split at h
    · cases h
      have hspin : Step d K s none { s with main := .waitRequests } := .control idle (.spin hm)
      rwa [← hm] at hspin
    · cases h
      exact .control idle (.enough hm (by omega))
  · rename_i i hm
    split at h
    · rename_i hi
      cases h
      apply Step.control idle
      split
      · rename_i hc
        exact .find hi hm hc
      · rename_i hc
        exact .skip hi hm (by simpa using hc)
    · cases h
      exact .control idle (.walked (by omega) hm)
  · rename_i i hm
    split at h
    · cases h
      exact .permit _ idle hm
    · cases h
  · rename_i hm
    cases h
    exact .setPermAfter idle hm
  · rename_i i hm
    cases h
    apply Step.control idle
    split
    · exact .call hm
    · exact .finish hm
  · rename_i i hm
    split at h
    · split at h
      · cases h
        exact .control idle (.reap hm)
      · cases h
    · cases h
  · cases h

/-- What the handler does is a step. -/
theorem Step.of_handlerStep (h : handlerStep s = some (e, s')) : Step d K s e s' := by
  unfold handlerStep at h
  split at h
  · rename_i hh
    cases h
    exact .handlerTest hh
  · rename_i hh
    cases h
    exact .handlerPermit hh
  · rename_i hh
    cases h
    exact .handlerRecord hh
  · rename_i hh
    cases h
    exact .handlerCount hh
  · cases h

/-- What a child does is a step. -/
theorem Step.of_childStep {c : Fin N} {woken : Bool}
    (h : childStep d s c woken = some (e, s')) : Step d K s e s' := by
  unfold childStep at h
  split at h
  · cases h
  · rename_i hc
    split at h
    · cases h
      exact .child (by simp [hc]) rfl
    · cases h
      exact .request hc
  · rename_i hc
    split at h
    · split at h
      · cases h
        exact .child (by simp [hc]) rfl
      · cases h
    · cases h
      exact .child (by simp [hc]) rfl
  · rename_i hc
    split at h
    · cases h
      exact .child (by simp [hc]) rfl
    · cases h
      exact .child (by simp [hc]) rfl
  · cases h

/-- What the program does is a step. -/
theorem Step.of_system (h : (program N d K).system.step s e s') : Step d K s e s' := by
  obtain ⟨choice, h⟩ := h
  cases choice with
  | main =>
    by_cases hidle : s.handler = none
    · simp only [program, next, if_pos hidle] at h
      exact .of_mainStep hidle h
    · simp only [program, next, if_neg hidle] at h
      cases h
  | handler => exact .of_handlerStep h
  | deliver c =>
    by_cases hc : s.handler = none ∧ c ∈ s.pending ∧ s.main ≠ .ended
    · simp only [program, next, if_pos hc] at h
      cases h
      exact .deliver hc.1 hc.2.1
    · simp only [program, next, if_neg hc] at h
      cases h
  | realtime =>
    by_cases hc : 0 < s.realtime ∧ s.main ≠ .ended
    · simp only [program, next, if_pos hc] at h
      cases h
      exact .realtime
    · simp only [program, next, if_neg hc] at h
      cases h
  | child c woken => exact .of_childStep h

/-! ## The accounts -/

/-- The event is about nobody's account. -/
def quiet : Option (Event N) → Bool
  | none | some (.permit _) | some (.record _ _) => true
  | some (.request _ _) | some (.count _) => false

/-- Another event does not count. -/
theorem count_concat_of_ne {a : Option (Event N)} (h : e ≠ a) : (l ++ [e]).count a = l.count a := by
  rw [List.count_append, List.count_singleton, if_neg (by simpa using h), Nat.add_zero]

/-- The event itself does. -/
theorem count_concat_self (a : Option (Event N)) : (l ++ [a]).count a = l.count a + 1 := by
  rw [List.count_append, List.count_singleton_self]

/-- What is no request adds none. -/
theorem requests_concat_of_ne {c : Fin N} (h : ∀ b, e ≠ some (.request c b)) :
    requests (l ++ [e]) c = requests l c := by
  unfold requests
  rw [count_concat_of_ne (h true), count_concat_of_ne (h false)]

/-- A request adds one. -/
theorem requests_concat_self (c : Fin N) (b : Bool) :
    requests (l ++ [some (.request c b)]) c = requests l c + 1 := by
  unfold requests
  cases b with
  | true => rw [count_concat_self, count_concat_of_ne (by simp)]; omega
  | false => rw [count_concat_self, count_concat_of_ne (by simp)]; omega

/-- What is no request drops none. -/
theorem dropped_concat_of_ne {c : Fin N} (h : ∀ b, e ≠ some (.request c b)) :
    dropped d (l ++ [e]) c = dropped d l c := by
  cases d with
  | queued => rfl
  | standard => exact count_concat_of_ne (h true)

/-- A request is dropped when it finds another one pending and only one can be. -/
theorem dropped_concat_self (d : Delivery) (p : List (Fin N)) (c : Fin N) :
    dropped d (l ++ [some (.request c (!p.isEmpty))]) c =
      dropped d l c + if d.drops p then 1 else 0 := by
  cases d with
  | queued => rfl
  | standard =>
    cases p with
    | nil => exact count_concat_of_ne (by simp)
    | cons a p => exact count_concat_self _

/-- **The accounts of the children's requests.** -/
structure Accounts (d : Delivery) (l : List (Option (Event N))) (s : State N) : Prop where
  unborn : ∀ i (c : Fin N), s.main = .fork i → i ≤ c → (s.child c).pc = .unborn
  early : ∀ c, (s.child c).pc.early = true → requests l c = 0
  once : ∀ c, requests l c ≤ 1
  place : ∀ c, s.pending.count c + s.handling c + l.count (some (.count c)) + dropped d l c =
    requests l c
  req : s.req = ∑ c, l.count (some (.count c))

/-- What leaves requests, handler and count alone leaves the accounts as they are. -/
theorem Accounts.frame (h : Accounts d l s) (he : quiet e = true)
    (pending : s'.pending = s.pending) (handling : ∀ c, s'.handling c = s.handling c)
    (req : s'.req = s.req)
    (unborn : ∀ i (c : Fin N), s'.main = .fork i → i ≤ c → (s'.child c).pc = .unborn)
    (early : ∀ c, (s'.child c).pc.early = true → (s.child c).pc.early = true) :
    Accounts d (l ++ [e]) s' := by
  have hrequest : ∀ c b, e ≠ some (.request c b) := by
    intro c b heq
    rw [heq] at he
    cases he
  have hcount : ∀ c, e ≠ some (.count c) := by
    intro c heq
    rw [heq] at he
    cases he
  constructor
  · exact unborn
  · intro c hc
    rw [requests_concat_of_ne (hrequest c)]
    exact h.early c (early c hc)
  · intro c
    rw [requests_concat_of_ne (hrequest c)]
    exact h.once c
  · intro c
    rw [requests_concat_of_ne (hrequest c), dropped_concat_of_ne (hrequest c),
      count_concat_of_ne (hcount c), pending, handling c]
    exact h.place c
  · rw [req, h.req]
    apply Finset.sum_congr rfl
    intro c _
    rw [count_concat_of_ne (hcount c)]

/-- An interruption does not fork. -/
theorem interrupted_eq_fork {pc : MainPc} {i : ℕ} (h : pc.interrupted = .fork i) :
    pc = .fork i := by
  cases pc with
  | waitChild j => cases h
  | _ => exact h

/-- Behind the forks there are no more of them. -/
theorem Control.ne_fork {pc : MainPc} (h : Control K s pc) (i : ℕ) : pc ≠ .fork i := by
  cases h <;> simp

/-- The accounts begin at zero. -/
theorem accounts_start : Accounts d [] (start N) := by
  constructor
  · intro i c _ _
    rfl
  · intro c _
    rfl
  · intro c
    exact Nat.zero_le _
  · intro c
    cases d <;> rfl
  · simp [start]

/-- A child that sends its request has a `SIGUSR1` pending, unless it is dropped. -/
theorem Accounts.request (h : Accounts d l s) {c : Fin N} (pc : (s.child c).pc = .work) :
    Accounts d (l ++ [some (.request c (!s.pending.isEmpty))])
      { s.moveChild c .wait with pending := d.post s.pending c } := by
  have hzero := h.early c (by rw [pc]; rfl)
  have hother : ∀ x, x ≠ c →
      ∀ b, some (Event.request c (!s.pending.isEmpty)) ≠ some (.request x b) := by
    intro x hx b heq
    cases heq
    exact hx rfl
  constructor
  · intro i x hm hi
    have hx := h.unborn i x hm hi
    have hne : x ≠ c := by
      intro heq
      rw [heq, pc] at hx
      cases hx
    simpa [State.moveChild_of_ne hne] using hx
  · intro x hx
    by_cases hne : x = c
    · subst hne
      simp [ChildPc.early] at hx
    · rw [requests_concat_of_ne (hother x hne)]
      exact h.early x (by simpa [State.moveChild_of_ne hne] using hx)
  · intro x
    by_cases hne : x = c
    · subst hne
      rw [requests_concat_self]
      omega
    · rw [requests_concat_of_ne (hother x hne)]
      exact h.once x
  · intro x
    have hplace := h.place x
    have hhandling : State.handling { s.moveChild c .wait with pending := d.post s.pending c } x =
        s.handling x := rfl
    dsimp only
    rw [hhandling, Delivery.count_post, count_concat_of_ne (by simp)]
    by_cases hne : x = c
    · subst hne
      rw [requests_concat_self, dropped_concat_self]
      cases d.drops s.pending with
      | true => simp only [Bool.true_eq_false, false_and, if_false, if_true]; omega
      | false => simp only [Bool.false_eq_true, and_self, if_false, if_true]; omega
    · rw [requests_concat_of_ne (hother x hne), dropped_concat_of_ne (hother x hne),
        if_neg (by intro hand; exact hne hand.2.symm)]
      omega
  · have hreq := h.req
    simp only [State.moveChild]
    rw [hreq]
    apply Finset.sum_congr rfl
    intro x _
    rw [count_concat_of_ne (by simp)]

/-- The request that is counted is the handler's. -/
theorem Accounts.count (h : Accounts d l s) {c : Fin N} (pc : s.handler = some (.count, c)) :
    Accounts d (l ++ [some (.count c)]) { s with req := s.req + 1, handler := none } := by
  have hother : ∀ x, x ≠ c → some (Event.count c) ≠ some (.count x) := by
    intro x hx heq
    cases heq
    exact hx rfl
  constructor
  · exact h.unborn
  · intro x hx
    rw [requests_concat_of_ne (by simp)]
    exact h.early x hx
  · intro x
    rw [requests_concat_of_ne (by simp)]
    exact h.once x
  · intro x
    have hplace := h.place x
    rw [requests_concat_of_ne (by simp), dropped_concat_of_ne (by simp)]
    simp only [State.handling, pc] at hplace ⊢
    by_cases hx : x = c
    · subst hx
      rw [count_concat_self]
      simp only [if_true] at hplace
      omega
    · rw [if_neg (Ne.symm hx)] at hplace
      rw [count_concat_of_ne (hother x hx)]
      exact hplace
  · have hsum : ∀ x, (l ++ [some (Event.count c)]).count (some (Event.count x)) =
        l.count (some (.count x)) + if x = c then 1 else 0 := by
      intro x
      by_cases hx : x = c
      · subst hx
        rw [count_concat_self, if_pos rfl]
      · rw [count_concat_of_ne (hother x hx), if_neg hx]
        rfl
    simp only [hsum, Finset.sum_add_distrib, Finset.sum_ite_eq', Finset.mem_univ, if_true]
    rw [h.req]

/-- A step that moves no child, and does not take `main` to a `fork`. -/
theorem Accounts.keep (h : Accounts d l s) (he : quiet e = true) (pending : s'.pending = s.pending)
    (handling : ∀ c, s'.handling c = s.handling c) (req : s'.req = s.req)
    (main : ∀ i, s'.main = .fork i → s.main = .fork i)
    (child : ∀ c, (s'.child c).pc = (s.child c).pc) : Accounts d (l ++ [e]) s' := by
  apply h.frame he pending handling req
  · intro i c hi hc
    rw [child c]
    exact h.unborn i c (main i hi) hc
  · intro c hc
    rw [child c] at hc
    exact hc

/-- A request that is delivered is the handler's. -/
theorem Accounts.deliver (h : Accounts d l s) {c : Fin N} (idle : s.handler = none)
    (mem : c ∈ s.pending) : Accounts d (l ++ [none])
      { s with pending := s.pending.erase c, handler := some (.testPermAfter, c),
               main := s.main.interrupted } := by
  constructor
  · intro i x hm hi
    exact h.unborn i x (interrupted_eq_fork hm) hi
  · intro x hx
    rw [requests_concat_of_ne (by simp)]
    exact h.early x hx
  · intro x
    rw [requests_concat_of_ne (by simp)]
    exact h.once x
  · intro x
    have hplace := h.place x
    rw [requests_concat_of_ne (by simp), dropped_concat_of_ne (by simp),
      count_concat_of_ne (by simp)]
    simp only [State.handling, idle] at hplace ⊢
    by_cases hx : c = x
    · subst hx
      have hpos := List.count_pos_iff.mpr mem
      rw [List.count_erase_self, if_pos rfl]
      omega
    · rw [List.count_erase_of_ne (Ne.symm hx), if_neg hx]
      omega
  · rw [h.req]
    apply Finset.sum_congr rfl
    intro x _
    rw [count_concat_of_ne (by simp)]

/-- **Every step keeps the accounts.** -/
theorem Accounts.step (h : Accounts d l s) (hstep : Step d K s e s') :
    Accounts d (l ++ [e]) s' := by
  cases hstep with
  | @fork i hi idle pc =>
    apply h.frame
    · rfl
    · rfl
    · exact fun _ => rfl
    · rfl
    · intro j c hj hc
      cases hj
      have hne : c ≠ ⟨i, hi⟩ := by
        intro heq
        subst heq
        exact absurd hc (by simp)
      dsimp only
      rw [State.moveChild_of_ne hne]
      exact h.unborn i c pc (by omega)
    · intro c hc
      by_cases hne : c = ⟨i, hi⟩
      · subst hne
        rw [h.unborn i _ pc (le_refl i)]
        rfl
      · simpa [State.moveChild_of_ne hne] using hc
  | permit hi idle pc =>
    apply h.keep
    · rfl
    · rfl
    · exact fun _ => rfl
    · rfl
    · exact fun _ hj => by cases hj
    · simp
  | setPermAfter idle pc =>
    apply h.keep
    · rfl
    · rfl
    · exact fun _ => rfl
    · rfl
    · exact fun _ hj => by cases hj
    · exact fun _ => rfl
  | control idle move =>
    apply h.keep
    · rfl
    · rfl
    · exact fun _ => rfl
    · rfl
    · exact fun j hj => absurd hj (move.ne_fork j)
    · exact fun _ => rfl
  | handlerTest pc | handlerPermit pc | handlerRecord pc =>
    -- the handler is still busy with the request
    apply h.keep
    · rfl
    · rfl
    · intro x
      simp [State.handling, pc]
    · rfl
    · exact fun _ hj => hj
    · simp
  | handlerCount pc => exact h.count pc
  | deliver idle mem => exact h.deliver idle mem
  | realtime =>
    apply h.keep
    · rfl
    · rfl
    · exact fun _ => rfl
    · rfl
    · exact fun _ hj => interrupted_eq_fork hj
    · exact fun _ => rfl
  | request pc => exact h.request pc
  | @child c pc rt born late =>
    apply h.frame
    · rfl
    · rfl
    · exact fun _ => rfl
    · rfl
    · intro j x hj hx
      have hne : x ≠ c := by
        intro heq
        subst heq
        exact born (h.unborn j x hj hx)
      simpa [State.moveChild_of_ne hne] using h.unborn j x hj hx
    · intro x hx
      by_cases hne : x = c
      · subst hne
        simp [late] at hx
      · simpa [State.moveChild_of_ne hne] using hx

/-- The accounts hold at the end of every run. -/
theorem accounts (run : (program N d K).system.Run (start N) l s) : Accounts d l s :=
  run.history_induction (I := Accounts d)
    (fun _ _ _ _ h hstep => h.step (.of_system hstep)) accounts_start

end SystemyOperacyjne.Permission
