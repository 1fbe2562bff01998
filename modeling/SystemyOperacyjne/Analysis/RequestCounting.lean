import Mathlib.Algebra.Order.BigOperators.Group.Finset
import SystemyOperacyjne.Analysis.PermissionAccounts

/-!
# Counting the requests

A standard signal that is pending is not queued a second time, so a request that is sent
while another one is pending never reaches the handler. When all children have sent their
requests and none is pending, `req` has come to `N` exactly if this has not happened and the
handler is not still before `req++`.
-/

set_option autoImplicit false

namespace SystemyOperacyjne.Permission

open Library

variable {N : ℕ} {d : Delivery} {K : ℤ} {s s' : State N} {l : List (Option (Event N))}

/-- Every child has sent its request, once. -/
theorem Accounts.requests_eq_one (h : Accounts d l s)
    (sent : ∀ c, ∃ b, some (Event.request c b) ∈ l) (c : Fin N) : requests l c = 1 := by
  have honce := h.once c
  have hpos : 0 < requests l c := by
    obtain ⟨b, hb⟩ := sent c
    have hcount := List.count_pos_iff.mpr hb
    unfold requests
    cases b with
    | true => omega
    | false => omega
  omega

/-- `req` has come to `N` when every request has been counted. -/
theorem Accounts.req_eq_iff (h : Accounts d l s) : s.req = N ↔
    ∀ c : Fin N, l.count (some (.count c)) = 1 := by
  have hle : ∀ c ∈ Finset.univ, l.count (some (Event.count c)) ≤ 1 := by
    intro c _
    have hplace := h.place c
    have honce := h.once c
    omega
  have hcard : ∑ _c : Fin N, 1 = N := by simp
  rw [h.req]
  constructor
  · intro hsum c
    exact (Finset.sum_eq_sum_iff_of_le hle).mp (hsum.trans hcard.symm) c (Finset.mem_univ c)
  · intro hall
    rw [Finset.sum_congr rfl fun c _ => hall c, hcard]

/-- The handler runs for nobody exactly when it does not run. -/
theorem handler_eq_none_iff : s.handler = none ↔ ∀ c, s.handling c = 0 := by
  constructor
  · intro h c
    simp [State.handling, h]
  · intro h
    cases hh : s.handler with
    | none => rfl
    | some p =>
      obtain ⟨pc, c⟩ := p
      have hc := h c
      simp [State.handling, hh] at hc

/-- **When all requests have been counted**: once every child has sent its request and none is
pending, `req` is `N`, and so the wait for `K` of them is over, exactly when no request was
sent while another one was pending and the handler is not still counting one.
SOURCE: cw04/zad2/main.c:24-42, cw04/zad2/main.c:110 -/
theorem all_counted_iff (hK : K ≤ N)
    (run : (program N .standard K).system.Run (start N) l s)
    (sent : ∀ c, ∃ b, some (Event.request c b) ∈ l) (pending : s.pending = []) :
    (s.req = N ∧ K ≤ s.req) ↔
      (∀ c, some (.request c true) ∉ l) ∧ s.handler = none := by
  have h := accounts run
  have hone := h.requests_eq_one sent
  have hplace : ∀ c, s.handling c + l.count (some (.count c)) +
      l.count (some (.request c true)) = 1 := by
    intro c
    have hc := h.place c
    rw [pending, hone c] at hc
    simpa [dropped] using hc
  rw [handler_eq_none_iff]
  constructor
  · intro hreq
    have hall := h.req_eq_iff.mp hreq.1
    constructor
    · intro c hc
      have hpos := List.count_pos_iff.mpr hc
      have hcount := hall c
      have hsum := hplace c
      omega
    · intro c
      have hcount := hall c
      have hsum := hplace c
      omega
  · intro hcond
    have hreq : s.req = N := by
      apply h.req_eq_iff.mpr
      intro c
      have hzero := List.count_eq_zero.mpr (hcond.1 c)
      have hhandling := hcond.2 c
      have hsum := hplace c
      omega
    exact ⟨hreq, by rw [hreq]; exact hK⟩

/-- For the numerals of `Fin 1`. -/
local instance neZero_one : NeZero 1 := ⟨by decide⟩

/-- For the numerals of `Fin 2`. -/
local instance neZero_two : NeZero 2 := ⟨by decide⟩

/-- A run with one child in which the request is counted. -/
def countedRun : List (Option (Event 1)) × State 1 :=
  ((program 1 .standard 1).exec (start 1)
    [.main, .main, .child 0 false, .deliver 0, .handler, .handler, .handler]).get
      (by decide +kernel)

/-- It is a run of the program. -/
theorem countedRun_run :
    (program 1 .standard 1).system.Run (start 1) countedRun.1 countedRun.2 := by
  unfold countedRun
  exact Machine.exec_run_get _

/-- One request, which is counted. -/
theorem all_counted_iff_one : (countedRun.2.req = 1 ∧ (1 : ℤ) ≤ countedRun.2.req) ↔
    (∀ c, some (.request c true) ∉ countedRun.1) ∧ countedRun.2.handler = none := by
  apply all_counted_iff (K := 1) (by decide) countedRun_run
  · decide +kernel
  · decide +kernel

/-- A run in which the second of two requests comes while the first one is pending. -/
def mergedRun : List (Option (Event 2)) × State 2 :=
  ((program 2 .standard 2).exec (start 2)
    [.main, .main, .main, .child 0 false, .child 1 false, .deliver 0, .handler, .handler,
      .handler]).get (by decide +kernel)

/-- **A request is lost**: two children have asked, nothing is pending and no handler runs, but
`req` is `1` and `main` waits for the second request. -/
theorem request_lost : (program 2 .standard 2).system.Run (start 2) mergedRun.1 mergedRun.2 ∧
    (∀ c, ∃ b, some (Event.request c b) ∈ mergedRun.1) ∧ mergedRun.2.pending = [] ∧
    mergedRun.2.handler = none ∧ ¬ (mergedRun.2.req = 2 ∧ (2 : ℤ) ≤ mergedRun.2.req) ∧
    mergedRun.2.main = .waitRequests ∧ (mergedRun.2.req : ℤ) < 2 := by
  refine ⟨?_, ?_, ?_, ?_, ?_, ?_, ?_⟩
  · unfold mergedRun
    exact Machine.exec_run_get _
  · decide +kernel
  · decide +kernel
  · decide +kernel
  · decide +kernel
  · decide +kernel
  · decide +kernel

end SystemyOperacyjne.Permission
