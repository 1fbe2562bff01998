import SystemyOperacyjne.Model.ClientRegistry

/-!
# What the registry functions do

`close_client` on a table of any contents, as the rounds of its loop (`CloseRun`), and what
follows for the whole call: it changes nothing where the descriptor is not in the table or
not open (`closeClient_same`), and where it is in the table the descriptor is closed
(`closeClient_closes`). `closeClient_first` gives the table after a call that returns: the
entries behind the descriptor have moved down by one, except the last of them, since the bound
of the loop had shrunk when its turn would have come.
-/

set_option autoImplicit false

namespace SystemyOperacyjne.ComputeServer

open Library

variable {fd : Fd} {r r' : Registry} {i j : ℕ}

/-! ## The part of the table in use -/

/-- The registered descriptors are the table up to `clientFdsSize`. -/
theorem Registry.getElem?_registered (r : Registry) (k : ℕ) :
    r.registered[k]? = if (k : ℤ) ≤ r.clientFdsSize then r.clientFds[k]? else none := by
  unfold Registry.registered
  by_cases h : (k : ℤ) ≤ r.clientFdsSize
  · rw [if_pos h, List.getElem?_take_of_lt (by omega), Vector.getElem?_toList]
  · rw [if_neg h, List.getElem?_eq_none]
    rw [List.length_take]
    omega

/-- A descriptor is registered when some entry in use holds it. -/
theorem Registry.mem_registered :
    fd ∈ r.registered ↔ ∃ k : ℕ, k ≤ r.clientFdsSize ∧ r.clientFds[k]? = some fd := by
  rw [List.mem_iff_getElem?]
  constructor
  · rintro ⟨k, hk⟩
    rw [Registry.getElem?_registered] at hk
    split at hk
    · next h => exact ⟨k, h, hk⟩
    · cases hk
  · rintro ⟨k, hle, hk⟩
    exact ⟨k, by rw [Registry.getElem?_registered, if_pos hle, hk]⟩

/-! ## The rounds of `close_client` -/

/-- The rounds of the loop of `close_client`, up to the registry `r'` it ends in: past the
bound the loop ends, another descriptor is copied from `i` to `j`, and the one looked for is
closed and the bound lowered. -/
inductive CloseRun (fd : Fd) (r' : Registry) : ℕ → ℕ → Registry → Prop
  | past {i j : ℕ} (hi : r'.clientFdsSize < i) : CloseRun fd r' i j r'
  | other {i j : ℕ} {r : Registry} {x : Fd} (hi : i ≤ r.clientFdsSize)
      (hx : r.clientFds[i]? = some x) (hne : x ≠ fd) (hj : j < MAXCLIENTS)
      (tail : CloseRun fd r' (i + 1) (j + 1) { r with clientFds := r.clientFds.set j x }) :
      CloseRun fd r' i j r
  | hit {i j : ℕ} {r : Registry} (hi : i ≤ r.clientFdsSize) (hx : r.clientFds[i]? = some fd)
      (hopen : fd ∈ r.openFds)
      (tail : CloseRun fd r' (i + 1) j
        { r with openFds := r.openFds.erase fd, clientFdsSize := r.clientFdsSize - 1 }) :
      CloseRun fd r' i j r

/-- The rounds are those of the loop. -/
theorem CloseRun.closeLoop_eq (h : CloseRun fd r' i j r) : closeLoop fd i j r = .ok r' := by
  induction h with
  | past hi =>
    unfold closeLoop
    rw [if_neg (by omega)]
  | other hi hx hne hj _ ih =>
    unfold closeLoop
    rw [if_pos hi, (load_eq_ok_iff _ _).mpr hx]
    simp only [bind, Except.bind, if_pos hne, store_of_lt _ _ hj]
    exact ih
  | hit hi hx hopen _ ih =>
    unfold closeLoop
    rw [if_pos hi, (load_eq_ok_iff _ _).mpr hx]
    simp only [bind, Except.bind, ne_eq, not_true_eq_false, if_false, if_pos hopen]
    exact ih

/-- A loop that does not leave the server is made of these rounds. The induction is on the
indices the loop can still reach. -/
theorem CloseRun.of_closeLoop (h : closeLoop fd i j r = .ok r') : CloseRun fd r' i j r := by
  induction hn : (r.clientFdsSize + 1 - i).toNat using Nat.strong_induction_on
    generalizing i j r with
  | _ n ih =>
  unfold closeLoop at h
  split at h
  · next hi =>
    obtain ⟨x, hx, h⟩ := bind_eq_ok_iff.mp h
    rw [load_eq_ok_iff] at hx
    split at h
    · next hne =>
      obtain ⟨fds, hfds, h⟩ := bind_eq_ok_iff.mp h
      obtain ⟨hj, rfl⟩ := store_ok _ _ hfds
      exact .other hi hx hne hj (ih _ (by dsimp only; omega) h rfl)
    · next heq =>
      split at h
      · next hopen =>
        rw [not_not] at heq
        subst heq
        exact .hit hi hx hopen (ih _ (by dsimp only; omega) h rfl)
      · cases h
  · next hi =>
    cases h
    exact .past (by omega)

/-- **The loop of `close_client`, round by round.** -/
theorem closeLoop_ok_iff : closeLoop fd i j r = .ok r' ↔ CloseRun fd r' i j r :=
  ⟨CloseRun.of_closeLoop, CloseRun.closeLoop_eq⟩

/-- No round opens a descriptor. -/
theorem CloseRun.openFds_subset (h : CloseRun fd r' i j r) : r'.openFds ⊆ r.openFds := by
  induction h with
  | past _ => exact Finset.Subset.refl _
  | other _ _ _ _ _ ih => exact ih
  | hit _ _ _ _ ih => exact ih.trans (Finset.erase_subset _ _)

/-- A round that meets the descriptor leaves it closed. -/
theorem CloseRun.closes (h : CloseRun fd r' i j r) (hij : j ≤ i) {k : ℕ} (hk : i ≤ k)
    (hle : k ≤ r.clientFdsSize) (hx : r.clientFds[k]? = some fd) : fd ∉ r'.openFds := by
  induction h with
  | past hi => omega
  | @other i j r x _ hi hne hj _ ih =>
    have hik : i ≠ k := by
      rintro rfl
      exact hne (Option.some.inj (hi.symm.trans hx))
    apply ih (by omega) (by omega) hle
    rw [Vector.getElem?_set_ne _ (by omega)]
    exact hx
  | hit _ _ _ tail _ =>
    intro hmem
    exact Finset.notMem_erase fd _ (tail.openFds_subset hmem)

/-- Where no entry ahead holds a descriptor that could be closed, every entry is written back
to its own place. -/
theorem CloseRun.same (h : CloseRun fd r' i j r) (hij : i = j)
    (hfd : fd ∈ r.openFds → ∀ k : ℕ, i ≤ k → k ≤ r.clientFdsSize → r.clientFds[k]? ≠ some fd) :
    r' = r := by
  induction h with
  | past _ => rfl
  | @other i j r x hi hx _ hj _ ih =>
    subst hij
    have hself : r.clientFds.set i x = r.clientFds := by
      have hstore := store_self Failure.outOfBounds r.clientFds hx
      rw [store_of_lt _ _ hj] at hstore
      exact Except.ok.inj hstore
    rw [hself] at ih
    exact ih rfl fun hopen k hk => hfd hopen k (by omega)
  | hit hi hx hopen _ _ => exact absurd hx (hfd hopen _ (Nat.le_refl _) hi)

/-- Entries that hold other descriptors are written back to their own places until the
descriptor is met. -/
theorem CloseRun.skip {p : ℕ} (h : CloseRun fd r' p p r) (hip : i ≤ p) (hp : p ≤ MAXCLIENTS)
    (hle : p ≤ r.clientFdsSize + 1)
    (hfd : ∀ k, i ≤ k → k < p → r.clientFds[k]? ≠ some fd) : CloseRun fd r' i i r := by
  induction hip using Nat.decreasingInduction with
  | self => exact h
  | of_succ i hi ih =>
    have hlt : i < MAXCLIENTS := by omega
    have hcell : r.clientFds[i]? = some r.clientFds[i] := Vector.getElem?_eq_getElem hlt
    have hne : r.clientFds[i] ≠ fd := by
      intro heq
      exact hfd i (Nat.le_refl i) hi (by rw [hcell, heq])
    refine .other (by omega) hcell hne (by omega) ?_
    rw [Vector.set_getElem_self]
    exact ih fun k hk => hfd k (by omega)

/-- Behind the descriptor the entries move from `i` down to `j`, up to the bound; the entries
from there on stay. -/
theorem CloseRun.shift (hij : j ≤ i) (hsize : r.clientFdsSize < MAXCLIENTS)
    (hfd : ∀ k : ℕ, i ≤ k → k ≤ r.clientFdsSize → r.clientFds[k]? ≠ some fd) :
    ∃ fds : Vector Fd MAXCLIENTS, CloseRun fd { r with clientFds := fds } i j r ∧
      ∀ k : ℕ, fds[k]? = if j ≤ k ∧ (k + (i - j) : ℕ) ≤ r.clientFdsSize
        then r.clientFds[k + (i - j)]? else r.clientFds[k]? := by
  induction hn : (r.clientFdsSize + 1 - i).toNat generalizing i j r with
  | zero =>
    refine ⟨r.clientFds, .past (by dsimp only; omega), ?_⟩
    intro k
    rw [if_neg (by omega)]
  | succ n ih =>
    have hlt : i < MAXCLIENTS := by omega
    have hcell : r.clientFds[i]? = some r.clientFds[i] := Vector.getElem?_eq_getElem hlt
    have hne : r.clientFds[i] ≠ fd := by
      intro heq
      exact hfd i (Nat.le_refl i) (by omega) (by rw [hcell, heq])
    have hj : j < MAXCLIENTS := by omega
    obtain ⟨fds, hrun, hfds⟩ := ih (i := i + 1) (j := j + 1)
      (r := { r with clientFds := r.clientFds.set j r.clientFds[i] }) (by omega) hsize
      (by
        intro k hk hle
        rw [Vector.getElem?_set_ne _ (by omega)]
        exact hfd k (by omega) hle)
      (by dsimp only; omega)
    refine ⟨fds, .other (by omega) hcell hne hj hrun, ?_⟩
    intro k
    rw [hfds k, Nat.add_sub_add_right]
    dsimp only
    by_cases hk : j = k
    · subst hk
      rw [if_neg (by omega), if_pos ⟨Nat.le_refl j, by omega⟩, Vector.getElem?_set_self,
        Nat.add_sub_cancel' hij, hcell]
    · by_cases hmove : j ≤ k ∧ (k + (i - j) : ℕ) ≤ r.clientFdsSize
      · rw [if_pos hmove, if_pos ⟨by omega, hmove.2⟩, Vector.getElem?_set_ne _ (by omega)]
      · rw [if_neg hmove, if_neg (by omega), Vector.getElem?_set_ne _ hk]

/-! ## Whole calls of `close_client` -/

/-- **`close_client` leaves the registry alone** for a descriptor that is not registered or
not open, unless it leaves the server. -/
theorem closeClient_same (hfd : fd ∈ r.openFds → fd ∉ r.registered)
    (h : closeClient fd r = .ok r') : r' = r := by
  apply (closeLoop_ok_iff.mp h).same rfl
  intro hopen k _ hk hx
  exact hfd hopen (Registry.mem_registered.mpr ⟨k, hk, hx⟩)

/-- A descriptor that is not registered costs the registry nothing. -/
theorem closeClient_absent (hfd : fd ∉ r.registered) (hsize : r.clientFdsSize < MAXCLIENTS) :
    closeClient fd r = .ok r := by
  have hend : CloseRun fd r (r.clientFdsSize + 1).toNat (r.clientFdsSize + 1).toNat r :=
    .past (by omega)
  by_cases hempty : r.clientFdsSize < 0
  · exact CloseRun.closeLoop_eq (.past (by omega))
  · apply CloseRun.closeLoop_eq
    apply hend.skip (Nat.zero_le _) (by omega) (by omega)
    intro k _ hk hx
    exact hfd (Registry.mem_registered.mpr ⟨k, by omega, hx⟩)

/-- **After `close_client` of a registered descriptor it is not open.** -/
theorem closeClient_closes (hfd : fd ∈ r.registered) (h : closeClient fd r = .ok r') :
    fd ∉ r'.openFds := by
  obtain ⟨k, hle, hx⟩ := Registry.mem_registered.mp hfd
  exact (closeLoop_ok_iff.mp h).closes (Nat.le_refl 0) (Nat.zero_le k) hle hx

/-- Until the descriptor is met every round leaves the table as it is. -/
theorem CloseRun.advance {p : ℕ} (h : CloseRun fd r' i i r) (hip : i ≤ p)
    (hp : p ≤ r.clientFdsSize) (hfd : ∀ k, i ≤ k → k < p → r.clientFds[k]? ≠ some fd) :
    CloseRun fd r' p p r := by
  induction hn : p - i generalizing i with
  | zero =>
    obtain rfl : i = p := by omega
    exact h
  | succ n ih =>
    cases h with
    | past hi => omega
    | @other _ _ _ x hi hx hne hj tail =>
      have hself : r.clientFds.set i x = r.clientFds := by
        have hstore := store_self Failure.outOfBounds r.clientFds hx
        rw [store_of_lt _ _ hj] at hstore
        exact Except.ok.inj hstore
      rw [hself] at tail
      exact ih tail (by omega) (fun k hk => hfd k (by omega)) (by omega)
    | hit hi hx _ _ => exact absurd hx (hfd i (Nat.le_refl i) (by omega))

/-- A descriptor that is closed is not met again, since closing it a second time would end the
server. -/
theorem CloseRun.ahead (h : CloseRun fd r' i j r) (hij : j ≤ i) (hclosed : fd ∉ r.openFds)
    {k : ℕ} (hk : i ≤ k) (hle : k ≤ r.clientFdsSize) : r.clientFds[k]? ≠ some fd := by
  intro hx
  induction h with
  | past hi => omega
  | @other i j r x hi hcell hne hj _ ih =>
    have hik : i ≠ k := by
      rintro rfl
      exact hne (Option.some.inj (hcell.symm.trans hx))
    apply ih (by omega) hclosed (by omega) hle
    rw [Vector.getElem?_set_ne _ (by omega)]
    exact hx
  | hit _ _ hopen _ _ => exact hclosed hopen

/-- **What a call of `close_client` that returns has done** to a table in which the descriptor
stands first at `p`: the entries from `p` on have moved down by one, but the last entry has
not. -/
theorem closeClient_first {p : ℕ} (hp : p ≤ r.clientFdsSize) (hsize : r.clientFdsSize < MAXCLIENTS)
    (hx : r.clientFds[p]? = some fd) (hfd : ∀ k < p, r.clientFds[k]? ≠ some fd)
    (h : closeClient fd r = .ok r') :
    ∃ fds : Vector Fd MAXCLIENTS,
      r' = { r with
        clientFds := fds, clientFdsSize := r.clientFdsSize - 1, openFds := r.openFds.erase fd } ∧
      ∀ k : ℕ, fds[k]? = if p ≤ k ∧ k + 1 < r.clientFdsSize
        then r.clientFds[k + 1]? else r.clientFds[k]? := by
  have hrun := (closeLoop_ok_iff.mp h).advance (Nat.zero_le p) hp fun k _ => hfd k
  cases hrun with
  | past hi => omega
  | other _ hcell hne _ _ => exact absurd (Option.some.inj (hcell.symm.trans hx)) hne
  | hit _ _ hopen tail =>
    have hahead : ∀ k : ℕ, p + 1 ≤ k → k ≤ r.clientFdsSize - 1 → r.clientFds[k]? ≠ some fd :=
      fun k hk hle => tail.ahead (by omega) (Finset.notMem_erase fd _) hk hle
    obtain ⟨fds, hshift, hfds⟩ := CloseRun.shift (i := p + 1) (j := p)
      (r := { r with openFds := r.openFds.erase fd, clientFdsSize := r.clientFdsSize - 1 })
      (by omega) (by dsimp only; omega) hahead
    refine ⟨fds, ?_, ?_⟩
    · have heq := tail.closeLoop_eq.symm.trans hshift.closeLoop_eq
      exact Except.ok.inj heq
    · intro k
      rw [hfds k]
      dsimp only
      rw [Nat.add_sub_cancel_left]
      by_cases hmove : p ≤ k ∧ (k : ℤ) + 1 < r.clientFdsSize
      · rw [if_pos hmove, if_pos ⟨hmove.1, by omega⟩]
      · rw [if_neg hmove, if_neg (by omega)]

/-- **`close_client` of an open descriptor the table holds once** returns. -/
theorem closeClient_once {p : ℕ} (hopen : fd ∈ r.openFds) (hp : p ≤ r.clientFdsSize)
    (hsize : r.clientFdsSize < MAXCLIENTS) (hx : r.clientFds[p]? = some fd)
    (hfd : ∀ k : ℕ, k ≤ r.clientFdsSize → r.clientFds[k]? = some fd → k = p) :
    ∃ fds : Vector Fd MAXCLIENTS,
      closeClient fd r = .ok { r with
        clientFds := fds, clientFdsSize := r.clientFdsSize - 1, openFds := r.openFds.erase fd } ∧
      ∀ k : ℕ, fds[k]? = if p ≤ k ∧ k + 1 < r.clientFdsSize
        then r.clientFds[k + 1]? else r.clientFds[k]? := by
  have hbefore : ∀ k < p, r.clientFds[k]? ≠ some fd := by
    intro k hk heq
    have hkp := hfd k (by omega) heq
    omega
  obtain ⟨fds, hrun, -⟩ := CloseRun.shift (i := p + 1) (j := p)
    (r := { r with openFds := r.openFds.erase fd, clientFdsSize := r.clientFdsSize - 1 })
    (by omega) (by dsimp only; omega)
    (by
      intro k hk hle heq
      have hkp := hfd k (by dsimp only at hle; omega) heq
      omega)
  have hskip : CloseRun fd _ 0 0 r := (CloseRun.hit hp hx hopen hrun).skip (Nat.zero_le p)
    (by omega) (by omega) fun k _ => hbefore k
  obtain ⟨fds', heq, hfds'⟩ := closeClient_first hp hsize hx hbefore hskip.closeLoop_eq
  exact ⟨fds', heq ▸ hskip.closeLoop_eq, hfds'⟩

end SystemyOperacyjne.ComputeServer
