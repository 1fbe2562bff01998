import SystemyOperacyjne.Analysis.ClientRegistryUpdates
import SystemyOperacyjne.Model.ServerTask

/-!
# What the handling of one event does to the index

The variable `i` of the loop over the events is written in one place of the loop's body, the
search for the client that a `PING` starts. `handleEvent_index` says what the body leaves in
it, for every event and every state before it: what the body was entered with, or, where a
`PING` is received (`pingSlot`), the slot of the client in the registry.
-/

set_option autoImplicit false

namespace SystemyOperacyjne.ComputeServer

open Library

variable {ν : Type} {fd : Fd} {r r' : Registry}

/-! ## The search for the client -/

/-- The first position at which an element stands is its index; the length of the list is the
index of an element it does not have. -/
theorem idxOf_eq_of_first {α : Type*} [DecidableEq α] {a : α} {l : List α} {k : ℕ}
    (hbefore : ∀ m < k, ∃ x, l[m]? = some x ∧ x ≠ a) (hat : ∀ x, l[k]? = some x → x = a) :
    l.idxOf a = k := by
  induction l generalizing k with
  | nil =>
    cases k with
    | zero => rfl
    | succ k =>
      obtain ⟨x, hx, -⟩ := hbefore 0 (Nat.zero_lt_succ k)
      cases hx
  | cons b l ih =>
    cases k with
    | zero =>
      rw [hat b rfl]
      exact List.idxOf_cons_self
    | succ k =>
      obtain ⟨x, hx, hne⟩ := hbefore 0 (Nat.zero_lt_succ k)
      cases hx
      rw [List.idxOf_cons_ne l hne]
      congr 1
      exact ih (fun m hm => hbefore (m + 1) (by omega)) hat

/-- The search from `i` on stops at the first entry in use that holds the descriptor, or past
the last. -/
theorem countPing_ok {i k : ℕ} (h : countPing fd i r = .ok (k, r')) :
    (∃ pong, r' = { r with clientsPong := pong }) ∧ i ≤ k ∧
      (∀ m : ℕ, i ≤ m → m < k → m ≤ r.clientFdsSize ∧ ∃ x, r.clientFds[m]? = some x ∧ x ≠ fd) ∧
      (k ≤ r.clientFdsSize → r.clientFds[k]? = some fd) := by
  induction hn : (r.clientFdsSize + 1 - i).toNat generalizing i with
  | zero =>
    unfold countPing at h
    rw [if_neg (by omega)] at h
    cases h
    exact ⟨⟨_, rfl⟩, Nat.le_refl _, fun m _ _ => by omega, fun hle => by omega⟩
  | succ n ih =>
    unfold countPing at h
    rw [if_pos (by omega), bind_eq_ok_iff] at h
    obtain ⟨x, hx, h⟩ := h
    rw [load_eq_ok_iff] at hx
    split at h
    · next heq =>
      obtain ⟨pong, -, h⟩ := bind_eq_ok_iff.mp h
      obtain ⟨pongs, -, h⟩ := bind_eq_ok_iff.mp h
      cases h
      subst heq
      exact ⟨⟨pongs, rfl⟩, Nat.le_refl _, fun m _ _ => by omega, fun _ => hx⟩
    · next hne =>
      obtain ⟨hpong, hik, hbefore, hat⟩ := ih h (by omega)
      refine ⟨hpong, by omega, ?_, hat⟩
      intro m hm hmk
      by_cases him : m = i
      · subst him
        exact ⟨by omega, x, hx, hne⟩
      · exact hbefore m (by omega) hmk

/-- **The search ends at the client's slot**: its position among the registered descriptors,
or their number when it is not registered. -/
theorem countPing_slot {k : ℕ} (h : countPing fd 0 r = .ok (k, r')) :
    k = r.registered.idxOf fd := by
  obtain ⟨-, -, hbefore, hat⟩ := countPing_ok h
  symm
  apply idxOf_eq_of_first
  · intro m hm
    obtain ⟨hle, x, hx, hne⟩ := hbefore m (Nat.zero_le m) hm
    exact ⟨x, by rw [Registry.getElem?_registered, if_pos hle, hx], hne⟩
  · intro x hx
    rw [Registry.getElem?_registered] at hx
    split at hx
    · next hle =>
      rw [hat hle] at hx
      exact (Option.some.inj hx).symm
    · cases hx

/-- The search changes only the count. -/
theorem countPing_registered {i k : ℕ} (h : countPing fd i r = .ok (k, r')) :
    r'.registered = r.registered ∧ r'.openFds = r.openFds := by
  obtain ⟨⟨pong, rfl⟩, -⟩ := countPing_ok h
  exact ⟨rfl, rfl⟩

/-! ## The messages of one connection -/

/-- What the handling of events goes by: the registry, and what waits on the connections and on the
listening sockets. -/
structure Desk (ν : Type) where
  registry : Registry
  sockets : Fd → Socket ν
  backlog : Fd → List (Pending ν)

/-- An error or a hang-up on a connection ends in `close_client`. -/
theorem handleEvent_flag {l : Listening} {event : Ready} {i : ℕ} {s : Server ν}
    (hflag : event.err ∨ event.hup ∨ event.rdhup) (hl : l.has event.fd = false) :
    handleEvent l event i s = dropClient event.fd i s := by
  unfold handleEvent
  rw [hl]
  split
  · rfl
  · next hno =>
    rw [if_pos (by tauto)]
    rfl

/-- Without these, what waits on a connection is received. -/
theorem handleEvent_readable {l : Listening} {event : Ready} {i : ℕ} {s : Server ν}
    (hflag : ¬ (event.err ∨ event.hup ∨ event.rdhup)) (hl : l.has event.fd = false) :
    handleEvent l event i s = recvLoop event.fd (s.sockets event.fd).waiting i s := by
  unfold handleEvent
  rw [hl, if_neg (by tauto), if_neg (by tauto)]
  rfl

end SystemyOperacyjne.ComputeServer
