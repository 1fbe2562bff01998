import SystemyOperacyjne.Analysis.RegistryBounds

/-!
# When the counts of the answers are the clients' own

`clientFds` and `clientsPong` are parallel arrays, but only some of the functions treat them
so: `add_client` takes a slot without setting its count to zero, `close_client` moves
descriptors without their counts, and the count of a `PING` goes to the first slot of its
descriptor only. For each call there is therefore a condition on the registry before it
(`CountsKept`) under which the call keeps the counts right, and it is exact: from counts that
are right, the call leads to counts that are right in no other case.
-/

set_option autoImplicit false

namespace SystemyOperacyjne.ComputeServer

open Library

variable {fd : Fd} {r r' : Registry} {calls : List RegistryCall}

/-- The call keeps the counts with their clients. `add_client` takes a slot whose count is
zero, for a descriptor that stands in no slot with another count; `close_client` moves no
client to a slot with another count; and the descriptor of a `PING` stands in one slot. -/
def CountsKept (r : Registry) : RegistryCall → Prop
  | .add fd => r.clientsPong[r.registered.length]? = some 0 ∧
      ∀ k : ℕ, r.registered[k]? = some fd → r.clientsPong[k]? = some 0
  | .close fd => ∀ k : ℕ, r.registered.idxOf fd ≤ k → k + 2 < r.registered.length →
      r.clientsPong[k]? = r.clientsPong[k + 1]?
  | .ping fd => ∀ k m : ℕ, r.registered[k]? = some fd → r.registered[m]? = some fd → k = m
  | _ => True

/-! ## What the calls do to descriptors and counts -/

/-- A slot in use is one of the arrays'. -/
theorem Registry.Fits.lt_of_registered (hr : r.Fits) {k : ℕ} (h : r.registered[k]? = some fd) :
    k < r.registered.length ∧ k < MAXCLIENTS := by
  obtain ⟨hk, -⟩ := List.getElem?_eq_some_iff.mp h
  have hlen := hr.length_registered
  have hupper := hr.upper
  exact ⟨hk, by omega⟩

/-- One more call for the credit of a client. -/
theorem credit_concat (fd : Fd) (calls : List RegistryCall) (c : RegistryCall) :
    credit fd (calls ++ [c]) = c.credited fd (credit fd calls) := by
  unfold credit
  rw [List.foldl_append]
  rfl

/-- A registration starts the credit of a client anew. -/
theorem credit_add (fd x : Fd) (calls : List RegistryCall) :
    credit x (calls ++ [.add fd]) = if fd = x then 0 else credit x calls :=
  credit_concat x calls _

/-- An answer is credited to the client it comes from. -/
theorem credit_ping (fd x : Fd) (calls : List RegistryCall) :
    credit x (calls ++ [.ping fd]) = if fd = x then credit x calls + 1 else credit x calls :=
  credit_concat x calls _

/-- **The count of a `PING`** goes to the first slot of its descriptor. -/
theorem countPing_counts {i k : ℕ} (h : countPing fd i r = .ok (k, r')) (m : ℕ) :
    r'.clientsPong[m]? = if m = k ∧ k ≤ r.clientFdsSize
      then (r.clientsPong[m]?).map (· + 1) else r.clientsPong[m]? := by
  induction hn : (r.clientFdsSize + 1 - i).toNat generalizing i with
  | zero =>
    unfold countPing at h
    rw [if_neg (by omega)] at h
    cases h
    rw [if_neg (by omega)]
  | succ n ih =>
    unfold countPing at h
    rw [if_pos (by omega), bind_eq_ok_iff] at h
    obtain ⟨x, -, h⟩ := h
    split at h
    · obtain ⟨pong, hpong, h⟩ := bind_eq_ok_iff.mp h
      obtain ⟨pongs, hpongs, h⟩ := bind_eq_ok_iff.mp h
      rw [load_eq_ok_iff] at hpong
      obtain ⟨hi, rfl⟩ := store_ok _ _ hpongs
      cases h
      dsimp only
      by_cases hm : k = m
      · subst hm
        rw [if_pos ⟨rfl, by omega⟩, Vector.getElem?_set_self, hpong]
        rfl
      · rw [if_neg (by omega), Vector.getElem?_set_ne _ hm]
    · exact ih h (by omega)

/-- What the table registers after a call of `add_client` that returns. -/
theorem call_add (hr : r.Fits) (h : call r (.add fd) = .ok r') :
    r'.registered = r.registered ++ [fd] ∧ r'.clientsPong = r.clientsPong := by
  have hlen := hr.length_registered
  by_cases hfull : r.Full
  · rw [call_add_full hfull fd] at h
    cases h
  · obtain ⟨fds, hadd, hfds⟩ := call_add_ok hr hfull fd
    rw [hadd] at h
    cases h
    refine ⟨?_, rfl⟩
    apply List.ext_getElem?
    intro k
    rw [Registry.getElem?_registered, hfds k]
    dsimp only
    by_cases hk : k = r.registered.length
    · rw [if_pos (by omega), if_pos (by omega), hk, List.getElem?_concat_length]
    · by_cases hlt : k < r.registered.length
      · rw [if_pos (by omega), if_neg (by omega), List.getElem?_append_left hlt,
          Registry.getElem?_registered, if_pos (by omega)]
      · rw [if_neg (by omega), List.getElem?_eq_none]
        rw [List.length_append, List.length_singleton]
        omega

/-- What the table registers after a call of `close_client` that returns. -/
theorem call_close (hr : r.Fits) (h : call r (.close fd) = .ok r') :
    r'.clientsPong = r.clientsPong ∧ ∀ k : ℕ, r'.registered[k]? =
      if fd ∈ r.registered then
        if k + 1 < r.registered.length then
          if r.registered.idxOf fd ≤ k ∧ k + 2 < r.registered.length
            then r.registered[k + 1]? else r.registered[k]?
        else none
      else r.registered[k]? := by
  have hlen := hr.length_registered
  simp only [call] at h
  by_cases hreg : fd ∈ r.registered
  · have hp := List.idxOf_lt_length_of_mem hreg
    have hcell : ∀ k : ℕ, k < r.registered.length → r.clientFds[k]? = r.registered[k]? := by
      intro k hk
      rw [Registry.getElem?_registered, if_pos (by omega)]
    have hx : r.clientFds[r.registered.idxOf fd]? = some fd := by
      rw [hcell _ hp, List.getElem?_eq_getElem hp, List.getElem_idxOf]
    obtain ⟨fds, rfl, hfds⟩ := closeClient_first (by omega) hr.upper hx
      (by
        intro k hk heq
        rw [hcell k (by omega), List.getElem?_eq_getElem (by omega)] at heq
        have hne := List.not_of_lt_findIdx (p := (· == fd)) hk
        rw [Option.some.inj heq, beq_self_eq_true] at hne
        cases hne) h
    refine ⟨rfl, ?_⟩
    intro k
    rw [Registry.getElem?_registered, if_pos hreg]
    dsimp only
    by_cases hk : k + 1 < r.registered.length
    · rw [if_pos (by omega), if_pos hk, hfds k]
      by_cases hmove : r.registered.idxOf fd ≤ k ∧ k + 2 < r.registered.length
      · rw [if_pos ⟨hmove.1, by omega⟩, if_pos hmove, hcell _ (by omega)]
      · rw [if_neg (by omega), if_neg hmove, hcell _ (by omega)]
    · rw [if_neg (by omega), if_neg hk]
  · obtain rfl := closeClient_same (fun _ => hreg) h
    refine ⟨rfl, ?_⟩
    intro k
    rw [if_neg hreg]

/-- What a round of pings does to the counts. -/
theorem call_pingRound (hr : r.Fits) (h : call r .pingRound = .ok r') :
    r'.registered = r.registered ∧ ∀ k < r.registered.length, r'.clientsPong[k]? = some 0 := by
  have hlen := hr.length_registered
  obtain ⟨pongs, hround, hpongs⟩ := call_pingRound_ok hr
  rw [hround] at h
  cases h
  refine ⟨rfl, ?_⟩
  intro k hk
  dsimp only
  rw [hpongs k, if_pos (by omega)]

/-- What a `PING` does to the counts. -/
theorem call_ping (hr : r.Fits) (h : call r (.ping fd) = .ok r') :
    r'.registered = r.registered ∧ ∀ k : ℕ, r'.clientsPong[k]? =
      if k = r.registered.idxOf fd ∧ fd ∈ r.registered
        then (r.clientsPong[k]?).map (· + 1) else r.clientsPong[k]? := by
  have hlen := hr.length_registered
  simp only [call] at h
  obtain ⟨⟨n, s⟩, hcount, hs⟩ := bind_eq_ok_iff.mp h
  cases hs
  refine ⟨(countPing_registered hcount).1, ?_⟩
  intro k
  rw [countPing_counts hcount k, countPing_slot hcount]
  by_cases hreg : fd ∈ r.registered
  · have hp := List.idxOf_lt_length_of_mem hreg
    by_cases hk : k = r.registered.idxOf fd
    · rw [if_pos ⟨hk, by omega⟩, if_pos ⟨hk, hreg⟩]
    · rw [if_neg fun hc => hk hc.1, if_neg fun hc => hk hc.1]
  · have hp := List.idxOf_eq_length hreg
    rw [if_neg (by omega), if_neg fun hc => hreg hc.2]

/-! ## One call -/

/-- A new client's count is right when its slot's was zero. -/
theorem counts_add_iff (hr : r.Fits) (h : r.Counts calls) (hcall : call r (.add fd) = .ok r') :
    r'.Counts (calls ++ [.add fd]) ↔ CountsKept r (.add fd) := by
  obtain ⟨hreg, hpong⟩ := call_add hr hcall
  unfold Registry.Counts CountsKept
  rw [hreg, hpong]
  constructor
  · intro h'
    have hzero : ∀ k : ℕ, (r.registered ++ [fd])[k]? = some fd → r.clientsPong[k]? = some 0 := by
      intro k hk
      rw [h' k fd hk, credit_add, if_pos rfl]
      rfl
    refine ⟨hzero _ List.getElem?_concat_length, ?_⟩
    intro k hk
    apply hzero k
    rw [List.getElem?_append_left (hr.lt_of_registered hk).1, hk]
  · rintro ⟨hslot, hother⟩ k x hk
    rw [credit_add]
    by_cases hlt : k < r.registered.length
    · rw [List.getElem?_append_left hlt] at hk
      split
      · next heq => exact hother k (heq ▸ hk)
      · exact h k x hk
    · have hlast : k = r.registered.length := by
        obtain ⟨hlen, -⟩ := List.getElem?_eq_some_iff.mp hk
        rw [List.length_append, List.length_singleton] at hlen
        omega
      subst hlast
      rw [List.getElem?_concat_length] at hk
      rw [if_pos (Option.some.inj hk)]
      exact hslot

/-- The counts stay right when the clients that move find the same count in their new slots. -/
theorem counts_close_iff (hr : r.Fits) (h : r.Counts calls)
    (hcall : call r (.close fd) = .ok r') :
    r'.Counts (calls ++ [.close fd]) ↔ CountsKept r (.close fd) := by
  obtain ⟨hpong, hreg⟩ := call_close hr hcall
  unfold Registry.Counts CountsKept
  rw [hpong]
  by_cases hmem : fd ∈ r.registered
  · constructor
    · intro h' k hp hk
      have hnext : r.registered[k + 1]? = some r.registered[k + 1] :=
        List.getElem?_eq_getElem (by omega)
      have hmoved := h' k r.registered[k + 1] (by
        rw [hreg k, if_pos hmem, if_pos (by omega), if_pos ⟨hp, hk⟩, hnext])
      rw [hmoved, h (k + 1) _ hnext, credit_concat]
      rfl
    · intro hkept k x hk
      rw [hreg k, if_pos hmem] at hk
      rw [credit_concat]
      show r.clientsPong[k]? = some (credit x calls : ℤ)
      split at hk
      · split at hk
        · next hmove =>
          rw [hkept k hmove.1 hmove.2]
          exact h (k + 1) x hk
        · exact h k x hk
      · cases hk
  · constructor
    · intro _ k hp hk
      rw [List.idxOf_eq_length hmem] at hp
      omega
    · intro _ k x hk
      rw [hreg k, if_neg hmem] at hk
      rw [credit_concat]
      exact h k x hk

/-- A `PING` is counted right when its descriptor stands in one slot. -/
theorem counts_ping_iff (hr : r.Fits) (h : r.Counts calls) (hcall : call r (.ping fd) = .ok r') :
    r'.Counts (calls ++ [.ping fd]) ↔ CountsKept r (.ping fd) := by
  obtain ⟨hreg, hpong⟩ := call_ping hr hcall
  unfold Registry.Counts CountsKept
  rw [hreg]
  constructor
  · intro h'
    -- every slot of the descriptor is the first, since only the first was counted up
    have hfirst : ∀ k : ℕ, r.registered[k]? = some fd → k = r.registered.idxOf fd := by
      intro k hk
      by_contra hne
      have hafter := h' k fd hk
      rw [hpong k, if_neg fun hc => hne hc.1, h k fd hk, credit_ping, if_pos rfl] at hafter
      have hsame := Option.some.inj hafter
      omega
    intro k m hk hm
    rw [hfirst k hk, hfirst m hm]
  · intro hone k x hk
    have hbefore := h k x hk
    rw [hpong k, credit_ping]
    by_cases hx : fd = x
    · subst hx
      have hmem := List.mem_of_getElem? hk
      have hp := List.idxOf_lt_length_of_mem hmem
      have hslot : k = r.registered.idxOf fd :=
        hone k _ hk (by rw [List.getElem?_eq_getElem hp, List.getElem_idxOf])
      rw [if_pos ⟨hslot, hmem⟩, if_pos rfl, hbefore]
      simp
    · rw [if_neg hx, if_neg, hbefore]
      rintro ⟨hslot, hmem⟩
      have hp := List.idxOf_lt_length_of_mem hmem
      rw [hslot, List.getElem?_eq_getElem hp, List.getElem_idxOf] at hk
      exact hx (Option.some.inj hk)

/-- **One call**: from counts that are right it leads to counts that are right exactly when
the registry before it satisfies the call's condition. -/
theorem counts_call_iff (hr : r.Fits) (h : r.Counts calls) {c : RegistryCall}
    (hcall : call r c = .ok r') : r'.Counts (calls ++ [c]) ↔ CountsKept r c := by
  cases c with
  | add fd => exact counts_add_iff hr h hcall
  | close fd => exact counts_close_iff hr h hcall
  | ping fd => exact counts_ping_iff hr h hcall
  | pingRound =>
    obtain ⟨hreg, hpong⟩ := call_pingRound hr hcall
    refine iff_of_true ?_ trivial
    intro k x hk
    rw [hreg] at hk
    rw [hpong k (hr.lt_of_registered hk).1, credit_concat]
    rfl
  | pongCheck =>
    refine iff_of_true ?_ trivial
    rw [call_pongCheck_ok hr] at hcall
    cases hcall
    intro k x hk
    rw [credit_concat]
    exact h k x hk
  | pick rand =>
    refine iff_of_true ?_ trivial
    rw [call_pick_ok hr rand] at hcall
    cases hcall
    intro k x hk
    rw [credit_concat]
    exact h k x hk

/-! ## A sequence of calls -/

/-- What the counts are for, over a sequence of calls: after each call that returns they are
the credits of the clients. -/
def CountsAnswers (calls : List RegistryCall) : Prop :=
  ∀ k ≤ calls.length, ∀ r, callAll (calls.take k) .empty = .ok r → r.Counts (calls.take k)

/-- Every call that returns keeps the counts with their clients. -/
def KeepsCounts (calls : List RegistryCall) : Prop :=
  ∀ k c r, calls[k]? = some c → callAll (calls.take k) .empty = .ok r →
    (∃ r', call r c = .ok r') → CountsKept r c

/-- Counts that are right before a call and after it are kept by it. -/
theorem CountsAnswers.keeps (h : CountsAnswers calls) : KeepsCounts calls := by
  rintro k c r hc hrun ⟨r', hcall⟩
  obtain ⟨hk, -⟩ := List.getElem?_eq_some_iff.mp hc
  have hbefore := h k (by omega) r hrun
  have hafter := h (k + 1) hk r' (by rw [callAll_take_succ hc, hrun]; exact hcall)
  rw [List.take_add_one, hc, Option.toList_some] at hafter
  exact (counts_call_iff (callAll_fits hrun) hbefore hcall).mp hafter

/-- Calls that keep the counts keep them right. The induction is on the number of calls. -/
theorem KeepsCounts.counts (h : KeepsCounts calls) : CountsAnswers calls := by
  intro k hk
  induction k with
  | zero =>
    intro r hrun m fd hm
    cases hrun
    cases hm
  | succ k ih =>
    intro r' hrun'
    have hc : calls[k]? = some calls[k] := List.getElem?_eq_getElem (by omega)
    rw [callAll_take_succ hc] at hrun'
    obtain ⟨r, hrun, hcall⟩ := bind_eq_ok_iff.mp hrun'
    rw [List.take_add_one, hc, Option.toList_some]
    apply (counts_call_iff (callAll_fits hrun) (ih (by omega) r hrun) hcall).mpr
    exact h k _ r hc hrun ⟨r', hcall⟩

end SystemyOperacyjne.ComputeServer
