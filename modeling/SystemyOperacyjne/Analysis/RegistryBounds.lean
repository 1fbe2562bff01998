import SystemyOperacyjne.Analysis.ServerTaskEvents
import SystemyOperacyjne.Model.RegistryCalls

/-!
# Which accesses to the registry are within its arrays

Every loop over the registry runs up to `clientFdsSize`, so all of them stay within the two
arrays as long as this last index does (`Registry.Fits`). The one call that can spoil it is
`add_client`: its test compares the last index with `MAXCLIENTS`, so a full table, whose last
index is `MAXCLIENTS - 1`, passes, and the descriptor is stored behind the array.
-/

set_option autoImplicit false

namespace SystemyOperacyjne.ComputeServer

open Library

variable {fd : Fd} {r r' : Registry}

/-- The last index in use is one of the arrays', or `-1`. -/
structure Registry.Fits (r : Registry) : Prop where
  lower : -1 ≤ r.clientFdsSize
  upper : r.clientFdsSize < MAXCLIENTS

/-- The empty registry is within its table. -/
theorem Registry.empty_fits : Registry.empty.Fits where
  lower := Int.le_refl _
  upper := by decide

/-! ## One call -/

/-- **`add_client` on a full table** does not end in its exit: it stores behind the array. -/
theorem addClient_full (h : r.Full) : addClient fd r = .error .outOfBounds := by
  unfold Registry.Full at h
  unfold addClient
  rw [if_neg (by omega)]
  unfold store
  rw [dif_neg (by omega)]
  rfl

/-- **`add_client` on a table that is not full** enters the descriptor behind the others. -/
theorem addClient_ok (hr : r.Fits) (h : ¬ r.Full) :
    ∃ fds : Vector Fd MAXCLIENTS,
      addClient fd r = .ok { r with clientFds := fds, clientFdsSize := r.clientFdsSize + 1 } ∧
      ∀ k : ℕ, fds[k]? = if k = r.clientFdsSize + 1 then some fd else r.clientFds[k]? := by
  obtain ⟨hlower, hupper⟩ := hr
  unfold Registry.Full at h
  obtain ⟨n, hn⟩ : ∃ n : ℕ, r.clientFdsSize + 1 = n := ⟨(r.clientFdsSize + 1).toNat, by omega⟩
  have hlt : n < MAXCLIENTS := by omega
  refine ⟨r.clientFds.set n fd, ?_, ?_⟩
  · unfold addClient
    rw [if_neg (by omega), hn, store_of_lt _ _ hlt]
    rfl
  · intro k
    rw [hn]
    by_cases hk : n = k
    · subst hk
      rw [if_pos rfl, Vector.getElem?_set_self]
    · rw [if_neg (by omega), Vector.getElem?_set_ne _ hk]

/-- The loop of `close_client` keeps to the table. The induction is on the indices it can
still reach. -/
theorem closeLoop_within {i j : ℕ} (hr : r.Fits) (hij : j ≤ i) :
    Within .outOfBounds (closeLoop fd i j r) Registry.Fits := by
  obtain ⟨hlower, hupper⟩ := hr
  induction hn : (r.clientFdsSize + 1 - i).toNat using Nat.strong_induction_on
    generalizing i j r with
  | _ n ih =>
  unfold closeLoop
  split
  · next hi =>
    apply Within.bind (.load (by omega))
    intro x _
    split
    · apply Within.bind (.store (by omega) x)
      intro fds _
      exact ih _ (by dsimp only; omega) (by omega) hlower hupper rfl
    · split
      · exact ih _ (by dsimp only; omega) (by omega) (by dsimp only; omega)
          (by dsimp only; omega) rfl
      · exact .error (by simp)
  · exact .ok ⟨hlower, hupper⟩

/-- `close_client` keeps to the table. -/
theorem closeClient_within (hr : r.Fits) :
    Within .outOfBounds (closeClient fd r) Registry.Fits :=
  closeLoop_within hr (Nat.le_refl 0)

/-- **A round of pings** writes to the registered descriptors and sets their counts to zero. -/
theorem pingLoop_ok (hr : r.Fits) (i : ℕ) :
    ∃ pongs : Vector ℤ MAXCLIENTS,
      pingLoop i r = .ok (r.registered.drop i, { r with clientsPong := pongs }) ∧
      ∀ k : ℕ, pongs[k]? = if i ≤ k ∧ k ≤ r.clientFdsSize then some 0 else r.clientsPong[k]? := by
  obtain ⟨hlower, hupper⟩ := hr
  induction hn : (r.clientFdsSize + 1 - i).toNat generalizing i r with
  | zero =>
    refine ⟨r.clientsPong, ?_, ?_⟩
    · unfold pingLoop
      rw [if_neg (by omega), List.drop_eq_nil_of_le]
      unfold Registry.registered
      rw [List.length_take]
      omega
    · intro k
      rw [if_neg (by omega)]
  | succ n ih =>
    have hi : i < MAXCLIENTS := by omega
    obtain ⟨pongs, hloop, hpongs⟩ := ih (r := { r with clientsPong := r.clientsPong.set i 0 })
      (i + 1) hlower hupper (by dsimp only; omega)
    refine ⟨pongs, ?_, ?_⟩
    · have hhead : r.registered[i]? = some r.clientFds[i] := by
        rw [Registry.getElem?_registered, if_pos (by omega), Vector.getElem?_eq_getElem hi]
      obtain ⟨hlen, hget⟩ := List.getElem?_eq_some_iff.mp hhead
      unfold pingLoop
      rw [if_pos (by omega), store_of_lt _ _ hi, load_of_lt _ _ hi, List.drop_eq_getElem_cons hlen,
        hget]
      simp only [bind, Except.bind, hloop]
      rfl
    · intro k
      rw [hpongs k]
      dsimp only
      by_cases hk : i = k
      · subst hk
        rw [if_neg (by omega), if_pos ⟨Nat.le_refl i, by omega⟩, Vector.getElem?_set_self]
      · rw [Vector.getElem?_set_ne _ hk]
        by_cases hin : i ≤ k ∧ (k : ℤ) ≤ r.clientFdsSize
        · rw [if_pos hin, if_pos ⟨by omega, hin.2⟩]
        · rw [if_neg hin, if_neg (by omega)]

/-- The end of a round reads within the table. -/
theorem pongLoop_ok (hr : r.Fits) (i : ℕ) : pongLoop i r = .ok () := by
  obtain ⟨hlower, hupper⟩ := hr
  induction hn : (r.clientFdsSize + 1 - i).toNat generalizing i with
  | zero =>
    unfold pongLoop
    rw [if_neg (by omega)]
  | succ n ih =>
    unfold pongLoop
    rw [if_pos (by omega), load_of_lt _ _ (by omega : i < MAXCLIENTS)]
    exact ih (i + 1) (by omega)

/-- The search for the client that a `PING` starts reads and writes within the table. -/
theorem countPing_within (hr : r.Fits) (i : ℕ) :
    Within .outOfBounds (countPing fd i r) fun _ => True := by
  obtain ⟨hlower, hupper⟩ := hr
  induction hn : (r.clientFdsSize + 1 - i).toNat generalizing i with
  | zero =>
    unfold countPing
    rw [if_neg (by omega)]
    exact .ok trivial
  | succ n ih =>
    have hi : i < MAXCLIENTS := by omega
    unfold countPing
    rw [if_pos (by omega)]
    apply Within.bind (.load hi)
    intro x _
    split
    · apply Within.bind (.load hi)
      intro pong _
      apply Within.bind (.store hi _)
      intro pongs _
      exact .ok trivial
    · exact ih (i + 1) (by omega)

/-- The number of the registered descriptors. -/
theorem Registry.Fits.length_registered (hr : r.Fits) :
    (r.registered.length : ℤ) = r.clientFdsSize + 1 := by
  have hlower := hr.lower
  have hupper := hr.upper
  unfold Registry.registered
  rw [List.length_take, Vector.length_toList]
  omega

/-- **`rand_client` reads within the table**: it returns the entry that `rand()` falls on, or
`-1` when there is none. -/
theorem randClient_ok (hr : r.Fits) (rand : ℕ) :
    randClient rand r = .ok (r.registered[rand % r.registered.length]?.getD (-1)) := by
  have hlen := hr.length_registered
  have hupper := hr.upper
  have hget : ∀ k : ℕ, k ≤ r.clientFdsSize →
      load Failure.outOfBounds r.clientFds k = .ok (r.registered[k]?.getD (-1)) := by
    intro k hk
    rw [load_eq_ok_iff, Registry.getElem?_registered, if_pos hk,
      Vector.getElem?_eq_getElem (by omega)]
    rfl
  unfold randClient
  split
  · next hsize =>
    rw [List.getElem?_eq_none (by omega)]
    rfl
  · next hsize =>
    split
    · next hzero =>
      have hone : r.registered.length = 1 := by omega
      rw [hone, Nat.mod_one]
      exact hget 0 (by omega)
    · next hmore =>
      have hmod : (rand : ℤ).tmod (r.clientFdsSize + 1) = (rand % r.registered.length : ℕ) := by
        rw [← hlen]
        exact (Int.ofNat_tmod rand r.registered.length).symm
      have hlt : rand % r.registered.length < r.registered.length :=
        Nat.mod_lt rand (by have := hr.lower; omega)
      rw [hmod]
      exact hget _ (by omega)

/-! ## The calls -/

/-- A client too many is stored behind the table. -/
theorem call_add_full (h : r.Full) (fd : Fd) : call r (.add fd) = .error .outOfBounds :=
  addClient_full (r := { r with openFds := insert fd r.openFds }) h

/-- As long as the table is not full a client is stored in it. -/
theorem call_add_ok (hr : r.Fits) (h : ¬ r.Full) (fd : Fd) :
    ∃ fds : Vector Fd MAXCLIENTS,
      call r (.add fd) = .ok { r with
        clientFds := fds
        clientFdsSize := r.clientFdsSize + 1
        openFds := insert fd r.openFds } ∧
      ∀ k : ℕ, fds[k]? = if k = r.clientFdsSize + 1 then some fd else r.clientFds[k]? :=
  addClient_ok (r := { r with openFds := insert fd r.openFds }) ⟨hr.lower, hr.upper⟩ h

/-- A round of pings stays within the table. -/
theorem call_pingRound_ok (hr : r.Fits) :
    ∃ pongs : Vector ℤ MAXCLIENTS, call r .pingRound = .ok { r with clientsPong := pongs } ∧
      ∀ k : ℕ, pongs[k]? = if k ≤ r.clientFdsSize then some 0 else r.clientsPong[k]? := by
  obtain ⟨pongs, hloop, hpongs⟩ := pingLoop_ok hr 0
  refine ⟨pongs, ?_, ?_⟩
  · simp only [call]
    rw [hloop]
    rfl
  · intro k
    simpa using hpongs k

/-- So does its end. -/
theorem call_pongCheck_ok (hr : r.Fits) : call r .pongCheck = .ok r := by
  simp only [call]
  rw [pongLoop_ok hr 0]
  rfl

/-- So does the choice of a client. -/
theorem call_pick_ok (hr : r.Fits) (rand : ℕ) : call r (.pick rand) = .ok r := by
  simp only [call]
  rw [randClient_ok hr rand]
  rfl

/-- **What a call does to the bounds**: unless it is `add_client` on a full table, it keeps to
the arrays. -/
theorem call_within (hr : r.Fits) (c : RegistryCall) (h : ∀ fd, c = .add fd → ¬ r.Full) :
    Within .outOfBounds (call r c) Registry.Fits := by
  have hlower := hr.lower
  have hupper := hr.upper
  cases c with
  | add fd =>
    have hroom := h fd rfl
    obtain ⟨fds, hadd, -⟩ := call_add_ok hr hroom fd
    rw [hadd]
    unfold Registry.Full at hroom
    exact .ok ⟨by dsimp only; omega, by dsimp only; omega⟩
  | close fd => exact closeClient_within hr
  | pingRound =>
    obtain ⟨pongs, hround, -⟩ := call_pingRound_ok hr
    rw [hround]
    exact .ok ⟨hlower, hupper⟩
  | pongCheck =>
    rw [call_pongCheck_ok hr]
    exact .ok hr
  | ping fd =>
    constructor
    · intro herr
      exact ((countPing_within hr 0).bind fun _ _ => .ok (Q := fun _ => True) trivial).1 herr
    · intro r' hr'
      obtain ⟨⟨k, s⟩, hcount, hs⟩ := bind_eq_ok_iff.mp hr'
      cases hs
      obtain ⟨⟨pong, rfl⟩, -⟩ := countPing_ok hcount
      exact ⟨hlower, hupper⟩
  | pick rand =>
    rw [call_pick_ok hr rand]
    exact .ok hr

/-- A call that returns leaves the bounds as they should be. -/
theorem call_fits (hr : r.Fits) {c : RegistryCall} (h : call r c = .ok r') : r'.Fits := by
  apply (call_within hr c _).post h
  rintro fd rfl hfull
  rw [call_add_full hfull fd] at h
  cases h

/-! ## A sequence of calls -/

/-- What is wanted of a sequence of calls: no call accesses anything outside the arrays, and
`add_client` on a full table ends in its exit. -/
def InBounds (calls : List RegistryCall) : Prop :=
  ∀ k ≤ calls.length, callAll (calls.take k) .empty ≠ .error .outOfBounds ∧
    ∀ r fd, callAll (calls.take k) .empty = .ok r → r.Full → calls[k]? = some (.add fd) →
      callAll (calls.take (k + 1)) .empty = .error (.exitError "Upper clients limit")

/-- `add_client` is called only while the table is not full. -/
def AddsWithRoom (calls : List RegistryCall) : Prop :=
  ∀ k r fd, calls[k]? = some (.add fd) → callAll (calls.take k) .empty = .ok r → ¬ r.Full

/-- One more call. -/
theorem callAll_take_succ {calls : List RegistryCall} {k : ℕ} {c : RegistryCall}
    (h : calls[k]? = some c) (r : Registry) :
    callAll (calls.take (k + 1)) r = callAll (calls.take k) r >>= fun r => call r c :=
  foldlM_take_succ h r

/-- While the calls return, the bounds are as they should be. -/
theorem callAll_fits {calls : List RegistryCall} {k : ℕ}
    (h : callAll (calls.take k) .empty = .ok r) : r.Fits := by
  induction k generalizing r with
  | zero =>
    cases h
    exact Registry.empty_fits
  | succ k ih =>
    cases hc : calls[k]? with
    | none =>
      rw [List.take_add_one, hc, Option.toList_none, List.append_nil] at h
      exact ih h
    | some c =>
      rw [callAll_take_succ hc] at h
      obtain ⟨s, hs, hcall⟩ := bind_eq_ok_iff.mp h
      exact call_fits (ih hs) hcall

/-- Calls that find room keep to the arrays. -/
theorem AddsWithRoom.within {calls : List RegistryCall} (h : AddsWithRoom calls) {k : ℕ}
    (hk : k ≤ calls.length) :
    Within .outOfBounds (callAll (calls.take k) .empty) Registry.Fits := by
  induction k with
  | zero => exact .ok Registry.empty_fits
  | succ k ih =>
    have hc : calls[k]? = some calls[k] := List.getElem?_eq_getElem (by omega)
    have hbefore := ih (by omega)
    rw [callAll_take_succ hc]
    cases hrun : callAll (calls.take k) .empty with
    | error e =>
      rw [hrun] at hbefore
      exact .error fun he => hbefore.1 (congrArg Except.error he)
    | ok r =>
      apply call_within (hbefore.post hrun)
      intro fd hadd
      exact h k r fd (by rw [hc, hadd]) hrun

/-- **When the accesses are within the arrays**: in the sequences of calls in which no
`add_client` meets a full table, and in no other.
SOURCE: cw10/zad1/server.c:309-340, cw10/zad2/server.c:294-327 -/
theorem inBounds_iff (calls : List RegistryCall) : InBounds calls ↔ AddsWithRoom calls := by
  constructor
  · intro h k r fd hc hrun hfull
    obtain ⟨hk, -⟩ := List.getElem?_eq_some_iff.mp hc
    apply (h (k + 1) hk).1
    rw [callAll_take_succ hc, hrun]
    exact addClient_full hfull
  · intro h k hk
    constructor
    · exact (h.within hk).1
    · intro r fd hrun hfull hc
      exact absurd hfull (h k r fd hc hrun)

/-- **The seventeenth client**: its descriptor is stored behind the table. -/
theorem seventeenth_client :
    let calls := (List.range 17).map fun k : ℕ => RegistryCall.add (k + 5)
    callAll calls .empty = .error .outOfBounds ∧ ¬ InBounds calls := by
  intro calls
  have hrun : callAll calls .empty = .error .outOfBounds := by decide +kernel
  refine ⟨hrun, ?_⟩
  intro h
  exact (h 17 (by decide)).1 hrun

end SystemyOperacyjne.ComputeServer
