import SystemyOperacyjne.Analysis.PermissionAccounts

/-!
# Who is permitted to go on

A request is decided by one access of the handler: it permits the child, or it records the
request for the walk of `main` over `CReq`. A request that is recorded at a place the walk has
read already is not seen by it, and `permAfter` is set for later requests only; every other
request is answered by one `SIGUSR2` (`Settled`).
-/

set_option autoImplicit false

namespace SystemyOperacyjne.Permission

open Library

variable {N : ℕ} {K : ℤ} {s s' : State N} {e : Option (Event N)}
  {l : List (Option (Event N))}

/-- The walk over `CReq` has done with child `c`. -/
def MainPc.served (c : ℕ) : MainPc → Bool
  | .fork _ | .waitRequests => false
  | .walk i | .permit i => c < i
  | .setPermAfter | .callWait _ | .waitChild _ | .ended => true

/-- `permAfter` has been set. -/
def MainPc.announced : MainPc → Bool
  | .fork _ | .waitRequests | .walk _ | .permit _ | .setPermAfter => false
  | .callWait _ | .waitChild _ | .ended => true

/-- An interruption serves nobody. -/
@[simp] theorem MainPc.served_interrupted (c : ℕ) (pc : MainPc) :
    pc.interrupted.served c = pc.served c := by
  cases pc <;> rfl

/-- Nor does it set `permAfter`. -/
@[simp] theorem MainPc.announced_interrupted (pc : MainPc) :
    pc.interrupted.announced = pc.announced := by
  cases pc <;> rfl

/-- When `permAfter` is set the walk is over. -/
theorem MainPc.served_of_announced {pc : MainPc} (h : pc.announced = true) (c : ℕ) :
    pc.served c = true := by
  cases pc <;> simp_all [MainPc.announced, MainPc.served]

/-- What has been read and is not just being answered, the walk has done with. -/
theorem MainPc.served_eq_passed {pc : MainPc} {c : ℕ} (h : pc ≠ .permit c) :
    pc.served c = pc.passed c := by
  cases pc with
  | permit i =>
    have hne : i ≠ c := by
      intro heq
      exact h (by rw [heq])
    simp only [MainPc.served, MainPc.passed, decide_eq_decide]
    omega
  | _ => rfl

/-- The handler has made its choice for the request of child `c`. -/
def Decided (l : List (Option (Event N))) (s : State N) (c : Fin N) : Prop :=
  some (.count c) ∈ l ∨ s.handler = some (.count, c)

/-- Nothing has been done yet for child `c`. -/
structure Untouched (l : List (Option (Event N))) (s : State N) (c : Fin N) : Prop where
  cReq : s.cReq c = false
  permits : l.count (some (.permit c)) = 0
  record : some (.record c true) ∉ l

/-- What has been done for a child whose request is decided. -/
inductive Settled (l : List (Option (Event N))) (s : State N) (c : Fin N) : Prop
  | direct (cReq : s.cReq c = false) (perm : s.permAfter = true)
      (permits : l.count (some (.permit c)) = 1) (record : some (.record c true) ∉ l)
  | recorded (cReq : s.cReq c = true)
      (permits : l.count (some (.permit c)) = if s.main.served c then 1 else 0)
      (record : some (.record c true) ∉ l)
  | missed (cReq : s.cReq c = true) (served : s.main.served c = true)
      (permits : l.count (some (.permit c)) = 0) (record : some (.record c true) ∈ l)

/-- **What holds of the permissions** in every state. -/
structure Grants (l : List (Option (Event N))) (s : State N) : Prop where
  perm : s.permAfter = s.main.announced
  found : ∀ i (hi : i < N), s.main = .permit i → s.cReq ⟨i, hi⟩ = true
  atPermit : ∀ c, s.handler = some (.permit, c) → s.permAfter = true
  atRecord : ∀ c, s.handler = some (.record, c) → s.permAfter = false
  atCount : ∀ c, s.handler = some (.count, c) → s.cReq c = true → s.permAfter = false
  untouched : ∀ c, ¬ Decided l s c → Untouched l s c
  settled : ∀ c, Decided l s c → Settled l s c

/-- A child for whom nothing is noted, and whose place in `CReq` and in the walk is the same. -/
theorem Settled.frame {c : Fin N} (h : Settled l s c) (hpermit : e ≠ some (.permit c))
    (hrecord : e ≠ some (.record c true)) (cReq : s'.cReq c = s.cReq c)
    (perm : s.permAfter = true → s'.permAfter = true)
    (served : s.cReq c = true → s'.main.served c = s.main.served c) :
    Settled (l ++ [e]) s' c := by
  have hmem : some (Event.record c true) ∈ l ++ [e] ↔ some (Event.record c true) ∈ l := by
    simp [Ne.symm hrecord]
  cases h with
  | direct h0 hperm hpermits hrec =>
    apply Settled.direct
    · rw [cReq, h0]
    · exact perm hperm
    · rw [count_concat_of_ne hpermit, hpermits]
    · rwa [hmem]
  | recorded h0 hpermits hrec =>
    apply Settled.recorded
    · rw [cReq, h0]
    · rw [count_concat_of_ne hpermit, hpermits, served h0]
    · rwa [hmem]
  | missed h0 hserved hpermits hrec =>
    apply Settled.missed
    · rw [cReq, h0]
    · rw [served h0, hserved]
    · rw [count_concat_of_ne hpermit, hpermits]
    · rwa [hmem]

/-- What concerns another child leaves this one alone. -/
theorem Untouched.frame {c : Fin N} (h : Untouched l s c) (hpermit : e ≠ some (.permit c))
    (hrecord : e ≠ some (.record c true)) (cReq : s'.cReq c = s.cReq c) :
    Untouched (l ++ [e]) s' c := by
  constructor
  · rw [cReq, h.cReq]
  · rw [count_concat_of_ne hpermit, h.permits]
  · simpa [Ne.symm hrecord] using h.record

/-- Only a request counted is a decision. -/
theorem decided_concat {c : Fin N} (h : e ≠ some (.count c)) :
    Decided (l ++ [e]) s c ↔ Decided l s c := by
  simp [Decided, Ne.symm h]

/-- An interruption permits nobody. -/
theorem interrupted_eq_permit {pc : MainPc} {i : ℕ} (h : pc.interrupted = .permit i) :
    pc = .permit i := by
  cases pc with
  | waitChild j => cases h
  | _ => exact h

/-- A request the handler is still busy with is not decided before its last access. -/
theorem Accounts.not_decided (h : Accounts .queued l s) {c : Fin N} {pc : HandlerPc}
    (hh : s.handler = some (pc, c)) (hpc : pc ≠ .count) : ¬ Decided l s c := by
  intro hdecided
  cases hdecided with
  | inl hmem =>
    have hplace := h.place c
    have honce := h.once c
    have hpos := List.count_pos_iff.mpr hmem
    simp only [State.handling, hh, if_true] at hplace
    omega
  | inr heq =>
    rw [hh] at heq
    cases heq
    exact hpc rfl

/-- The event is about no permission. -/
def unnoted : Option (Event N) → Bool
  | none | some (.request _ _) => true
  | some (.permit _) | some (.record _ _) | some (.count _) => false

/-- A step that decides nothing and moves the walk past nobody recorded. -/
theorem Grants.frame (h : Grants l s) (he : unnoted e = true)
    (cReq : s'.cReq = s.cReq) (perm : s'.permAfter = s.permAfter)
    (announced : s'.main.announced = s.main.announced)
    (served : ∀ c : Fin N, s.cReq c = true → s'.main.served c = s.main.served c)
    (found : ∀ i (hi : i < N), s'.main = .permit i → s.cReq ⟨i, hi⟩ = true)
    (count : ∀ c, s'.handler = some (.count, c) ↔ s.handler = some (.count, c))
    (atPermit : ∀ c, s'.handler = some (.permit, c) → s.permAfter = true)
    (atRecord : ∀ c, s'.handler = some (.record, c) → s.permAfter = false) :
    Grants (l ++ [e]) s' := by
  have hpermit : ∀ c, e ≠ some (.permit c) := by
    intro c heq
    rw [heq] at he
    cases he
  have hrecord : ∀ c b, e ≠ some (.record c b) := by
    intro c b heq
    rw [heq] at he
    cases he
  have hcount : ∀ c, e ≠ some (.count c) := by
    intro c heq
    rw [heq] at he
    cases he
  have hdecided : ∀ c, Decided (l ++ [e]) s' c ↔ Decided l s c := by
    intro c
    rw [decided_concat (hcount c)]
    unfold Decided
    rw [count c]
  constructor
  · rw [perm, announced]
    exact h.perm
  · rw [cReq]
    exact found
  · rw [perm]
    exact atPermit
  · rw [perm]
    exact atRecord
  · intro c hc
    rw [cReq, perm]
    exact h.atCount c ((count c).mp hc)
  · intro c hc
    rw [hdecided c] at hc
    exact (h.untouched c hc).frame (hpermit c) (hrecord c true) (by rw [cReq])
  · intro c hc
    rw [hdecided c] at hc
    apply (h.settled c hc).frame (hpermit c) (hrecord c true)
    · rw [cReq]
    · rw [perm]
      exact id
    · exact served c

/-- `main` goes on without a permission. -/
theorem Grants.control (h : Grants l s) {pc : MainPc} (move : Control K s pc) :
    Grants (l ++ [none]) { s with main := pc } := by
  apply h.frame
  · rfl
  · rfl
  · rfl
  · cases move with
    | spin pc => rw [pc]
    | forked pc | enough pc req | skip hi pc free | find hi pc taken | walked hi pc | call pc
    | finish pc | reap pc =>
      rw [pc]
      rfl
  · intro c hc
    cases move with
    | spin pc => rw [pc]
    | enough pc req =>
      rw [pc]
      simp [MainPc.served]
    | @skip i hi pc free =>
      -- the child passed over has no request on record
      have hne : c ≠ ⟨i, hi⟩ := by
        intro heq
        rw [heq, free] at hc
        cases hc
      have hval : (c : ℕ) ≠ i := fun heq => hne (Fin.ext heq)
      rw [pc]
      simp only [MainPc.served, decide_eq_decide]
      omega
    | walked hi pc =>
      rw [pc]
      have hlt := c.isLt
      simp only [MainPc.served, true_eq_decide_iff]
      omega
    | forked pc | find hi pc taken | call pc | finish pc | reap pc =>
      rw [pc]
      rfl
  · intro i hi heq
    cases move with
    | spin pc => cases heq
    | find hi pc taken =>
      cases heq
      exact taken
    | _ => cases heq
  · exact fun _ => Iff.rfl
  · exact h.atPermit
  · exact h.atRecord

/-- The walk permits a child whose request it has found. -/
theorem Grants.permit (h : Grants l s) {i : ℕ} (hi : i < N) (pc : s.main = .permit i) :
    Grants (l ++ [some (.permit ⟨i, hi⟩)])
      { s.permitChild ⟨i, hi⟩ with main := .walk (i + 1) } := by
  have hperm := h.perm
  rw [pc] at hperm
  have hdecided : ∀ c, Decided (l ++ [some (.permit ⟨i, hi⟩)])
      { s.permitChild ⟨i, hi⟩ with main := .walk (i + 1) } c ↔ Decided l s c := by
    intro c
    exact decided_concat (by simp)
  have hother : ∀ c, c ≠ ⟨i, hi⟩ → some (Event.permit ⟨i, hi⟩) ≠ some (.permit c) := by
    intro c hc heq
    cases heq
    exact hc rfl
  have hfound := h.found i hi pc
  constructor
  · exact hperm
  · intro j hj hjm
    cases hjm
  · exact h.atPermit
  · exact h.atRecord
  · exact h.atCount
  · intro c hc
    rw [hdecided c] at hc
    have hc' := h.untouched c hc
    have hne : c ≠ ⟨i, hi⟩ := by
      intro heq
      rw [heq] at hc'
      rw [hc'.cReq] at hfound
      cases hfound
    exact hc'.frame (hother c hne) (by simp) rfl
  · intro c hc
    rw [hdecided c] at hc
    have hc' := h.settled c hc
    by_cases hne : c = ⟨i, hi⟩
    · subst hne
      cases hc' with
      | direct cReq => rw [cReq] at hfound; cases hfound
      | recorded cReq permits record =>
        apply Settled.recorded
        · exact cReq
        · rw [count_concat_self, permits, pc]
          simp [MainPc.served]
        · simpa using record
      | missed cReq served =>
        rw [pc] at served
        simp [MainPc.served] at served
    · apply hc'.frame (hother c hne)
      · simp
      · rfl
      · exact id
      · intro _
        rw [pc]
        have hval : (c : ℕ) ≠ i := fun heq => hne (Fin.ext heq)
        simp only [MainPc.served, decide_eq_decide]
        omega

/-- The handler permits a child at once. -/
theorem Grants.handlerPermit (h : Grants l s) (ha : Accounts .queued l s) {c : Fin N}
    (pc : s.handler = some (.permit, c)) : Grants (l ++ [some (.permit c)])
      { s.permitChild c with handler := some (.count, c) } := by
  have hperm := h.atPermit c pc
  have hnew : ¬ Decided l s c := ha.not_decided pc (by simp)
  have hother : ∀ x, x ≠ c → some (Event.permit c) ≠ some (.permit x) := by
    intro x hx heq
    cases heq
    exact hx rfl
  have hdecided : ∀ x, x ≠ c → (Decided (l ++ [some (.permit c)])
      { s.permitChild c with handler := some (.count, c) } x ↔ Decided l s x) := by
    intro x hx
    rw [decided_concat (by simp)]
    simp [Decided, pc, Ne.symm hx]
  have hself : Decided (l ++ [some (.permit c)])
      { s.permitChild c with handler := some (.count, c) } c := .inr rfl
  have hc := h.untouched c hnew
  constructor
  · exact h.perm
  · exact h.found
  · intro x hx
    cases hx
  · intro x hx
    cases hx
  · intro x hx hreq
    cases hx
    have hfree := hc.cReq
    rw [show s.cReq c = true from hreq] at hfree
    cases hfree
  · intro x hx
    have hne : x ≠ c := by
      intro heq
      rw [heq] at hx
      exact hx hself
    rw [hdecided x hne] at hx
    exact (h.untouched x hx).frame (hother x hne) (by simp) rfl
  · intro x hx
    by_cases hne : x = c
    · subst hne
      apply Settled.direct
      · exact hc.cReq
      · exact hperm
      · rw [count_concat_self, hc.permits]
      · simpa using hc.record
    · rw [hdecided x hne] at hx
      exact (h.settled x hx).frame (hother x hne) (by simp) rfl id (fun _ => rfl)

/-- The handler records a request: in time for the walk, or too late. -/
theorem Grants.handlerRecord (h : Grants l s) (ha : Accounts .queued l s) {c : Fin N}
    (pc : s.handler = some (.record, c)) :
    Grants (l ++ [some (.record c (s.main.passed c))])
      { s with cReq := Function.update s.cReq c true, handler := some (.count, c) } := by
  have hperm := h.atRecord c pc
  have hnew : ¬ Decided l s c := ha.not_decided pc (by simp)
  have hc := h.untouched c hnew
  have hpermit : s.main ≠ .permit c := by
    intro heq
    have hfound := h.found c c.isLt heq
    rw [hc.cReq] at hfound
    cases hfound
  have hserved := MainPc.served_eq_passed hpermit
  have hother : ∀ x, x ≠ c →
      some (Event.record c (s.main.passed c)) ≠ some (.record x true) := by
    intro x hx heq
    simp only [Option.some.injEq, Event.record.injEq] at heq
    exact hx heq.1.symm
  have hcReq : ∀ x, x ≠ c → Function.update s.cReq c true x = s.cReq x :=
    fun x hx => Function.update_of_ne hx ..
  have hdecided : ∀ x, x ≠ c → (Decided (l ++ [some (.record c (s.main.passed c))])
      { s with cReq := Function.update s.cReq c true, handler := some (.count, c) } x ↔
      Decided l s x) := by
    intro x hx
    rw [decided_concat (by simp)]
    simp [Decided, pc, Ne.symm hx]
  have hself : Decided (l ++ [some (.record c (s.main.passed c))])
      { s with cReq := Function.update s.cReq c true, handler := some (.count, c) } c := .inr rfl
  constructor
  · exact h.perm
  · intro i hi hm
    have hfound := h.found i hi hm
    dsimp only
    by_cases hx : (⟨i, hi⟩ : Fin N) = c
    · rw [hx, Function.update_self]
    · rw [hcReq _ hx]
      exact hfound
  · intro x hx
    cases hx
  · intro x hx
    cases hx
  · intro x hx _
    exact hperm
  · intro x hx
    have hne : x ≠ c := by
      intro heq
      rw [heq] at hx
      exact hx hself
    rw [hdecided x hne] at hx
    exact (h.untouched x hx).frame (by simp) (hother x hne) (hcReq x hne)
  · intro x hx
    by_cases hne : x = c
    · subst hne
      cases hpassed : s.main.passed x with
      | true =>
        apply Settled.missed
        · exact Function.update_self ..
        · exact hserved.trans hpassed
        · rw [count_concat_of_ne (by simp)]
          exact hc.permits
        · simp
      | false =>
        apply Settled.recorded
        · exact Function.update_self ..
        · rw [count_concat_of_ne (by simp), hc.permits, hserved, hpassed]
          rfl
        · simpa using hc.record
    · rw [hdecided x hne] at hx
      exact (h.settled x hx).frame (by simp) (hother x hne) (hcReq x hne) id (fun _ => rfl)

/-- The handler returns. -/
theorem Grants.handlerCount (h : Grants l s) {c : Fin N} (pc : s.handler = some (.count, c)) :
    Grants (l ++ [some (.count c)]) { s with req := s.req + 1, handler := none } := by
  have hdecided : ∀ x, Decided (l ++ [some (.count c)])
      { s with req := s.req + 1, handler := none } x ↔ Decided l s x := by
    intro x
    by_cases hx : x = c
    · subst hx
      simp [Decided, pc]
    · rw [decided_concat (by simpa using Ne.symm hx)]
      simp [Decided, pc, Ne.symm hx]
  constructor
  · exact h.perm
  · exact h.found
  · intro x hx
    cases hx
  · intro x hx
    cases hx
  · intro x hx
    cases hx
  · intro x hx
    rw [hdecided x] at hx
    exact (h.untouched x hx).frame (by simp) (by simp) rfl
  · intro x hx
    rw [hdecided x] at hx
    exact (h.settled x hx).frame (by simp) (by simp) rfl id (fun _ => rfl)

/-- `main` sets `permAfter`. -/
theorem Grants.setPermAfter (h : Grants l s) (idle : s.handler = none)
    (pc : s.main = .setPermAfter) :
    Grants (l ++ [none]) { s with permAfter := true, main := .callWait 0 } := by
  have hdecided : ∀ x, Decided (l ++ [none]) { s with permAfter := true, main := .callWait 0 } x ↔
      Decided l s x := fun x => decided_concat (by simp)
  constructor
  · rfl
  · intro i hi hm
    cases hm
  · intro x _
    rfl
  · intro x hx
    rw [show s.handler = some (.record, x) from hx] at idle
    cases idle
  · intro x hx
    rw [show s.handler = some (.count, x) from hx] at idle
    cases idle
  · intro x hx
    rw [hdecided x] at hx
    exact (h.untouched x hx).frame (by simp) (by simp) rfl
  · intro x hx
    rw [hdecided x] at hx
    apply (h.settled x hx).frame
    · simp
    · simp
    · rfl
    · exact fun _ => rfl
    · intro _
      rw [pc]
      rfl

/-- **Every step keeps it.** -/
theorem Grants.step (h : Grants l s) (ha : Accounts .queued l s)
    (hstep : Step .queued K s e s') : Grants (l ++ [e]) s' := by
  cases hstep with
  | fork hi idle pc =>
    apply h.frame
    · rfl
    · rfl
    · rfl
    · rw [pc]; rfl
    · intro c _
      rw [pc]; rfl
    · intro i hi hm
      cases hm
    · exact fun _ => Iff.rfl
    · exact h.atPermit
    · exact h.atRecord
  | permit hi idle pc => exact h.permit hi pc
  | setPermAfter idle pc => exact h.setPermAfter idle pc
  | control idle move => exact h.control move
  | @handlerTest c pc =>
    apply h.frame
    · rfl
    · rfl
    · rfl
    · rfl
    · exact fun _ _ => rfl
    · exact h.found
    · intro x
      rw [pc]
      cases s.permAfter <;> simp
    · intro x hx
      cases hperm : s.permAfter with
      | true => rfl
      | false => simp [hperm] at hx
    · intro x hx
      cases hperm : s.permAfter with
      | true => simp [hperm] at hx
      | false => rfl
  | handlerPermit pc => exact h.handlerPermit ha pc
  | handlerRecord pc => exact h.handlerRecord ha pc
  | handlerCount pc => exact h.handlerCount pc
  | deliver idle mem =>
    apply h.frame
    · rfl
    · rfl
    · rfl
    · exact MainPc.announced_interrupted _
    · exact fun c _ => MainPc.served_interrupted _ _
    · intro i hi hm
      exact h.found i hi (interrupted_eq_permit hm)
    · simp [idle]
    · simp
    · simp
  | realtime =>
    apply h.frame
    · rfl
    · rfl
    · rfl
    · exact MainPc.announced_interrupted _
    · exact fun c _ => MainPc.served_interrupted _ _
    · intro i hi hm
      exact h.found i hi (interrupted_eq_permit hm)
    · exact fun _ => Iff.rfl
    · exact h.atPermit
    · exact h.atRecord
  | request pc | child born late =>
    apply h.frame
    · rfl
    · rfl
    · rfl
    · rfl
    · exact fun _ _ => rfl
    · exact h.found
    · exact fun _ => Iff.rfl
    · exact h.atPermit
    · exact h.atRecord

/-- Nothing has been permitted in the beginning. -/
theorem grants_start : Grants [] (start N) := by
  constructor
  · rfl
  · intro i hi hm
    cases hm
  · intro c hc
    cases hc
  · intro c hc
    cases hc
  · intro c hc
    cases hc
  · intro c _
    exact ⟨rfl, rfl, by simp⟩
  · intro c hc
    simp [Decided, start] at hc

/-- Accounts and permissions at the end of every run. -/
theorem grants (run : (program N .queued K).system.Run (start N) l s) : Grants l s := by
  have h : Grants l s ∧ Accounts .queued l s := by
    apply run.history_induction (I := fun l s => Grants l s ∧ Accounts .queued l s)
    · intro l s e s' h hstep
      exact ⟨h.1.step h.2 (.of_system hstep), h.2.step (.of_system hstep)⟩
    · exact ⟨grants_start, accounts_start⟩
  exact h.1

/-- **Who gets a permission**: once `permAfter` is set, every child whose request the handler
has processed has been sent exactly one `SIGUSR2`, exactly if no request was recorded at a
place of `CReq` that the walk of `main` had already read.
SOURCE: cw04/zad2/main.c:24-42, cw04/zad2/main.c:110-120 -/
theorem permitted_once_iff (run : (program N .queued K).system.Run (start N) l s)
    (hperm : s.permAfter = true) :
    (∀ c, some (.count c) ∈ l → l.count (some (.permit c)) = 1) ↔
      ∀ c, some (.record c true) ∉ l := by
  have h := grants run
  have hserved : ∀ c : Fin N, s.main.served c = true := by
    intro c
    apply MainPc.served_of_announced
    rw [← h.perm, hperm]
  constructor
  · intro hall c hrec
    have hdecided : Decided l s c := by
      by_contra hnot
      exact (h.untouched c hnot).record hrec
    cases h.settled c hdecided with
    | direct cReq perm permits record => exact record hrec
    | recorded cReq permits record => exact record hrec
    | missed cReq served permits record =>
      cases hdecided with
      | inl hcount =>
        have hone := hall c hcount
        omega
      | inr hpc =>
        rw [h.atCount c hpc cReq] at hperm
        cases hperm
  · intro hnone c hcount
    cases h.settled c (.inl hcount) with
    | direct cReq perm permits record => exact permits
    | recorded cReq permits record => rw [permits, if_pos (hserved c)]
    | missed cReq served permits record => exact absurd record (hnone c)

/-- A run with one child, whose request comes in time. -/
def permittedRun : List (Option (Event 1)) × State 1 :=
  ((program 1 .queued 1).exec (start 1)
    [.main, .main, .child 0 false, .deliver 0, .handler, .handler, .handler, .main, .main,
      .main, .main, .main]).get (by decide +kernel)

/-- It is a run of the program. -/
theorem permittedRun_run :
    (program 1 .queued 1).system.Run (start 1) permittedRun.1 permittedRun.2 := by
  unfold permittedRun
  exact Machine.exec_run_get _

/-- A request that comes in time is permitted once. -/
theorem permitted_once_iff_one :
    (∀ c, some (.count c) ∈ permittedRun.1 → permittedRun.1.count (some (.permit c)) = 1) ↔
      ∀ c, some (.record c true) ∉ permittedRun.1 :=
  permitted_once_iff permittedRun_run (by decide +kernel)

/-- A run with two children and `K = 1`: the walk has passed child `0` when its request
comes. -/
def missedRun : List (Option (Event 2)) × State 2 :=
  ((program 2 .queued 1).exec (start 2)
    [.main, .main, .main, .child 1 false, .deliver 1, .handler, .handler, .handler, .main, .main,
      .child 0 false, .deliver 0, .handler, .handler, .handler, .main, .main, .main, .main]).get
      (by decide +kernel)

/-- **A permission is missed**: the handler has processed the request of child `0` and
`permAfter` is set, but no `SIGUSR2` has been sent to that child. -/
theorem permission_missed :
    (program 2 .queued 1).system.Run (start 2) missedRun.1 missedRun.2 ∧
    missedRun.2.permAfter = true ∧
    ¬ ∀ c, some (.count c) ∈ missedRun.1 → missedRun.1.count (some (.permit c)) = 1 := by
  refine ⟨?_, ?_, ?_⟩
  · unfold missedRun
    exact Machine.exec_run_get _
  · decide +kernel
  · decide +kernel

end SystemyOperacyjne.Permission
