import Mathlib.Data.List.Nodup
import SystemyOperacyjne.Analysis.ServerTaskEvents
import SystemyOperacyjne.Model.ConnectionEvents

/-!
# The registry over a history of connections

Whether `clientFds[0..clientFdsSize]` follows the connections of a history is decided event
by event. A new connection is entered behind the others. The end of a connection is recorded
right exactly when it is the newest of those open: `close_client` never moves the last entry
of the table, so the end of any other connection costs the newest one its place.
-/

set_option autoImplicit false

namespace SystemyOperacyjne.ComputeServer

open Library

variable {ν : Type} {fd : Fd} {r r' : Registry} {live : List Fd}

/-! ## One call on a registry that lists the connections -/

/-- There is room for the connections listed. -/
theorem Registry.Lists.length_le (h : r.Lists live) : live.length ≤ MAXCLIENTS := by
  rw [← h.entries]
  unfold Registry.registered
  simp

/-- The entries of the table in use are the connections. -/
theorem Registry.Lists.getElem? (h : r.Lists live) {k : ℕ} (hk : k < live.length) :
    r.clientFds[k]? = some live[k] := by
  have hsize := h.size
  rw [← List.getElem?_eq_getElem hk, ← h.entries, Registry.getElem?_registered,
    if_pos (by omega)]

/-- A registry that agrees with a list up to its size registers this list. -/
theorem Registry.registered_eq (hsize : r.clientFdsSize + 1 = live.length)
    (hentry : ∀ k, k < live.length → r.clientFds[k]? = live[k]?) : r.registered = live := by
  apply List.ext_getElem?
  intro k
  rw [Registry.getElem?_registered]
  by_cases hk : k < live.length
  · rw [if_pos (by omega), hentry k hk]
  · rw [if_neg (by omega), List.getElem?_eq_none (by omega)]

/-- The empty registry lists no connection. -/
theorem Registry.empty_lists : Registry.empty.Lists [] where
  entries := rfl
  size := rfl
  nodup := List.nodup_nil
  isOpen _ := by simp [Registry.empty]

/-- **A new connection is entered behind the others.** -/
theorem addClient_lists (h : r.Lists live) (hfd : fd ∉ live) (hroom : live.length < MAXCLIENTS) :
    ∃ r', addClient fd { r with openFds := insert fd r.openFds } = .ok r' ∧
      r'.Lists (live ++ [fd]) := by
  have hsize := h.size
  have hlast : r.clientFdsSize + 1 = (live.length : ℤ) := hsize
  unfold addClient
  rw [if_neg (by dsimp only; omega)]
  dsimp only
  rw [hlast, store_of_lt _ _ hroom]
  refine ⟨_, rfl, ?_⟩
  constructor
  · apply Registry.registered_eq
    · simp
    · intro k hk
      dsimp only
      rw [List.length_append, List.length_singleton] at hk
      by_cases hkl : k = live.length
      · subst hkl
        simp
      · rw [Vector.getElem?_set_ne _ (by omega), h.getElem? (by omega),
          List.getElem?_append_left (by omega), List.getElem?_eq_getElem (by omega)]
  · simp
  · exact List.nodup_append.mpr ⟨h.nodup, List.nodup_singleton fd, by
      intro a ha b hb hab
      rw [List.mem_singleton] at hb
      exact hfd (by rwa [hab, hb] at ha)⟩
  · intro x
    dsimp only
    rw [Finset.mem_insert, h.isOpen, List.mem_append, List.mem_singleton, or_comm]

/-- What `close_client` makes of the table when the connection at `p` ends. -/
theorem closeClient_lists (h : r.Lists live) {p : ℕ} (hp : p < live.length) :
    ∃ fds : Vector Fd MAXCLIENTS,
      closeClient live[p] r = .ok { r with
        clientFds := fds
        clientFdsSize := r.clientFdsSize - 1
        openFds := r.openFds.erase live[p] } ∧
      ∀ k : ℕ, fds[k]? = if p ≤ k ∧ k + 2 < live.length
        then r.clientFds[k + 1]? else r.clientFds[k]? := by
  have hsize := h.size
  have hle := h.length_le
  obtain ⟨fds, hclose, hfds⟩ := closeClient_once (p := p)
    ((h.isOpen _).mpr (List.getElem_mem hp)) (by omega) (by omega) (h.getElem? hp)
    (by
      intro k hk hx
      rw [h.getElem? (by omega)] at hx
      exact (List.Nodup.getElem_inj_iff h.nodup).mp (Option.some.inj hx))
  refine ⟨fds, hclose, ?_⟩
  intro k
  rw [hfds k]
  by_cases hk : p ≤ k ∧ k + 2 < live.length
  · rw [if_pos hk, if_pos ⟨hk.1, by omega⟩]
  · rw [if_neg hk, if_neg (by omega)]

/-- **The end of a connection is recorded right exactly when it is the newest one.** -/
theorem closeClient_lists_iff (h : r.Lists live) {p : ℕ} (hp : p < live.length) :
    ∃ r', closeClient live[p] r = .ok r' ∧
      (r'.Lists (live.erase live[p]) ↔ p + 1 = live.length) := by
  obtain ⟨fds, hclose, hfds⟩ := closeClient_lists h hp
  have hsize := h.size
  refine ⟨_, hclose, ?_⟩
  rw [List.Nodup.erase_getElem h.nodup]
  have hlen : (live.eraseIdx p).length = live.length - 1 := List.length_eraseIdx_of_lt hp
  constructor
  · intro h'
    by_contra hlast
    -- the last entry still holds what it held before, but the newest connection belongs there
    have hkept := hfds (live.length - 2)
    rw [if_neg (by omega), h.getElem? (by omega)] at hkept
    have hwant := h'.getElem? (k := live.length - 2) (by omega)
    rw [hkept, List.getElem_eraseIdx, dif_neg (by omega)] at hwant
    have heq := (List.Nodup.getElem_inj_iff h.nodup).mp (Option.some.inj hwant)
    omega
  · intro hlast
    constructor
    · apply Registry.registered_eq
      · dsimp only
        omega
      · intro k hk
        dsimp only
        rw [hfds k, if_neg (by omega), h.getElem? (by omega), List.getElem?_eraseIdx,
          if_pos (by omega), List.getElem?_eq_getElem]
    · dsimp only
      omega
    · exact h.nodup.eraseIdx p
    · intro x
      dsimp only
      rw [Finset.mem_erase, h.isOpen, ← List.Nodup.erase_getElem h.nodup,
        List.Nodup.mem_erase_iff h.nodup]

/-! ## One event -/

/-- A new connection is handled by a call of `add_client`. -/
theorem serve_accept (l : Listening) (s : Server ν) (viaUnix : Bool) (fd : Fd) :
    (serve l s (.accept viaUnix fd)).map Server.registry =
      addClient fd { s.registry with openFds := insert fd s.registry.openFds } := by
  have hlistens : l.has (if viaUnix then l.unSock else l.netSock) = true := by
    cases viaUnix <;> simp [Listening.has]
  simp only [serve, handleEvent, hlistens, Function.update_self, acceptLoop]
  cases addClient fd { s.registry with openFds := insert fd s.registry.openFds } with
  | error e => rfl
  | ok r => rfl

/-- The calls of `close_client` at the end of a connection. An `EXIT` message is followed by a
second call, as `recv` fails on the descriptor just closed. -/
def Closing.calls (how : Closing ν) (fd : Fd) (registry : Registry) : Except Failure Registry :=
  match how with
  | .exitMessage _ => do
    let r ← closeClient fd registry
    if fd ∈ r.openFds then .ok r else closeClient fd r
  | _ => closeClient fd registry

/-- The end of a connection is handled by calls of `close_client`. -/
theorem serve_close (l : Listening) (s : Server ν) (how : Closing ν) {fd : Fd}
    (hl : l.has fd = false) (hopen : fd ∈ s.registry.openFds) :
    (serve l s (.close how fd)).map Server.registry = how.calls fd s.registry := by
  have hdrop : ∀ t : Server ν, t.registry = s.registry →
      (dropClient fd 0 t >>= fun p => Except.ok p.2).map Server.registry =
        closeClient fd s.registry := by
    intro t ht
    simp only [dropClient, ht]
    cases closeClient fd s.registry with
    | error e => rfl
    | ok r => rfl
  cases how with
  | error =>
    simp only [serve, Closing.ready]
    rw [handleEvent_flag (.inl rfl) hl]
    exact hdrop _ rfl
  | hangUp =>
    simp only [serve, Closing.ready]
    rw [handleEvent_flag (.inr (.inl rfl)) hl]
    exact hdrop _ rfl
  | readHangUp =>
    simp only [serve, Closing.ready]
    rw [handleEvent_flag (.inr (.inr rfl)) hl]
    exact hdrop _ rfl
  | zeroRead =>
    simp only [serve, Closing.ready]
    rw [handleEvent_readable (by simp) hl]
    simp only [Closing.socket, Function.update_self, recvLoop, reduceCtorEq, and_false, if_false]
    exact hdrop _ rfl
  | exitMessage body =>
    simp only [serve, Closing.ready, Closing.calls]
    rw [handleEvent_readable (by simp) hl]
    simp only [Closing.socket, Function.update_self, recvLoop, if_pos hopen, receive, dropClient]
    cases closeClient fd s.registry with
    | error e => rfl
    | ok r =>
      simp only [bind, Except.bind, pure, Except.pure, Function.update_self, and_true]
      by_cases hr : fd ∈ r.openFds
      · rw [if_pos hr, if_pos hr]
        rfl
      · rw [if_neg hr, if_neg hr]
        cases closeClient fd r with
        | error e => rfl
        | ok r' => rfl

/-- The second call after an `EXIT` message changes nothing. -/
theorem serve_close_ok {l : Listening} {s s' : Server ν} {how : Closing ν}
    (hl : l.has fd = false) (hopen : fd ∈ s.registry.openFds) (hreg : fd ∈ s.registry.registered)
    (h : serve l s (.close how fd) = .ok s') : closeClient fd s.registry = .ok s'.registry := by
  have hserve := serve_close l s how hl hopen
  rw [h] at hserve
  cases how with
  | exitMessage body =>
    obtain ⟨r, hclose, hsecond⟩ := bind_eq_ok_iff.mp hserve.symm
    have hclosed := closeClient_closes hreg hclose
    rw [if_neg hclosed] at hsecond
    rw [hclose, closeClient_same (fun hmem => absurd hmem hclosed) hsecond]
  | _ => exact hserve.symm

/-- The second call after an `EXIT` message returns where the first has taken the descriptor
out of the table. -/
theorem serve_close_of_ok {l : Listening} {s : Server ν} (how : Closing ν)
    (hl : l.has fd = false) (hopen : fd ∈ s.registry.openFds) (hreg : fd ∈ s.registry.registered)
    (hclose : closeClient fd s.registry = .ok r') (hgone : fd ∉ r'.registered)
    (hsize : r'.clientFdsSize < MAXCLIENTS) :
    ∃ s', serve l s (.close how fd) = .ok s' ∧ s'.registry = r' := by
  have hserve := serve_close l s how hl hopen
  apply map_eq_ok_iff.mp
  rw [hserve]
  cases how with
  | exitMessage body =>
    rw [Closing.calls, hclose]
    show (if fd ∈ r'.openFds then Except.ok r' else closeClient fd r') = .ok r'
    rw [if_neg (closeClient_closes hreg hclose)]
    exact closeClient_absent hgone hsize
  | _ => exact hclose

/-- A new connection, entered behind the others. -/
theorem serve_accept_lists (l : Listening) {s : Server ν} (viaUnix : Bool)
    (h : s.registry.Lists live) (hfd : fd ∉ live) (hroom : live.length < MAXCLIENTS) :
    ∃ s', serve l s (.accept viaUnix fd) = .ok s' ∧ s'.registry.Lists (live ++ [fd]) := by
  obtain ⟨r', hadd, hlists⟩ := addClient_lists h hfd hroom
  rw [← serve_accept l s viaUnix fd] at hadd
  obtain ⟨s', hserve, rfl⟩ := map_eq_ok_iff.mp hadd
  exact ⟨s', hserve, hlists⟩

/-- **The end of a connection is recorded right exactly when it is the newest one**, however
it ends. -/
theorem serve_close_lists_iff {l : Listening} {s : Server ν} (how : Closing ν)
    (h : s.registry.Lists live) (hfd : fd ∈ live) (hl : l.has fd = false) :
    (∃ s', serve l s (.close how fd) = .ok s' ∧ s'.registry.Lists (live.erase fd)) ↔
      live.getLast? = some fd := by
  obtain ⟨p, hp, rfl⟩ := List.getElem_of_mem hfd
  obtain ⟨r', hclose, hlists⟩ := closeClient_lists_iff h hp
  have hopen := (h.isOpen _).mpr hfd
  have hreg : live[p] ∈ s.registry.registered := by rwa [h.entries]
  have hlast : live.getLast? = some live[p] ↔ p + 1 = live.length := by
    rw [List.getLast?_eq_getElem?, List.getElem?_eq_getElem (by omega), Option.some.injEq,
      List.Nodup.getElem_inj_iff h.nodup]
    omega
  rw [hlast, ← hlists]
  constructor
  · rintro ⟨s', hserve, hs'⟩
    have hsame := serve_close_ok hl hopen hreg hserve
    rw [hclose] at hsame
    rwa [Except.ok.inj hsame]
  · intro hr'
    have hsize := hr'.size
    have hle := hr'.length_le
    have hgone : live[p] ∉ r'.registered := by
      rw [hr'.entries]
      exact h.nodup.not_mem_erase
    obtain ⟨s', hserve, rfl⟩ := serve_close_of_ok how hl hopen hreg hclose hgone (by omega)
    exact ⟨s', hserve, hr'⟩

/-! ## A whole history -/

/-- What the registry is for, over a whole history: after each of its events the server has
not exited, and the registry lists the connections. -/
def TracksConnections (l : Listening) (history : List (ConnEvent ν)) : Prop :=
  ∀ k ≤ history.length, ∃ s, serveAll l (history.take k) .start = .ok s ∧
    s.registry.Lists (connections (history.take k))

/-- Every connection that ends is the newest of those open at that time. -/
def ClosesNewest (history : List (ConnEvent ν)) : Prop :=
  ∀ k how fd, history[k]? = some (.close how fd) →
    (connections (history.take k)).getLast? = some fd

/-- One more event of the history. -/
theorem connections_take_succ {history : List (ConnEvent ν)} {k : ℕ} {e : ConnEvent ν}
    (h : history[k]? = some e) :
    connections (history.take (k + 1)) = e.after (connections (history.take k)) := by
  rw [List.take_add_one, h]
  unfold connections
  rw [List.foldl_append]
  rfl

/-- One more event for the server. -/
theorem serveAll_take_succ {l : Listening} {history : List (ConnEvent ν)} {k : ℕ}
    {e : ConnEvent ν} (h : history[k]? = some e) (s : Server ν) :
    serveAll l (history.take (k + 1)) s =
      serveAll l (history.take k) s >>= fun t => serve l t e :=
  foldlM_take_succ h s

/-- The event at `k` could come after those before it. -/
theorem Admissible.allowed {l : Listening} {history : List (ConnEvent ν)}
    (h : Admissible l history) {k : ℕ} {e : ConnEvent ν} (he : history[k]? = some e) :
    e.Allowed l (connections (history.take k)) := by
  obtain ⟨hk, rfl⟩ := List.getElem?_eq_some_iff.mp he
  exact h k hk

/-- No connection has the descriptor of a listening socket. -/
theorem Admissible.not_listening {l : Listening} {history : List (ConnEvent ν)}
    (h : Admissible l history) (k : ℕ) : ∀ fd ∈ connections (history.take k), l.has fd = false := by
  induction k with
  | zero => simp [connections]
  | succ k ih =>
    cases he : history[k]? with
    | none =>
      rw [List.take_add_one, he]
      simpa using ih
    | some e =>
      rw [connections_take_succ he]
      intro fd hfd
      cases e with
      | accept viaUnix fd' =>
        rcases List.mem_append.mp hfd with hfd | hfd
        · exact ih fd hfd
        · rw [List.mem_singleton.mp hfd]
          exact (h.allowed he).2.1
      | close how fd' => exact ih fd (List.mem_of_mem_erase hfd)

/-- **One event of a history**: where the registry lists the connections before it, it lists
them after it, if the event is not the end of any connection but the newest. -/
theorem serve_lists {l : Listening} {history : List (ConnEvent ν)} (h : Admissible l history)
    {k : ℕ} {e : ConnEvent ν} (he : history[k]? = some e) {s : Server ν}
    (hs : s.registry.Lists (connections (history.take k)))
    (hnewest : ∀ how fd, e = .close how fd →
      (connections (history.take k)).getLast? = some fd) :
    ∃ s', serve l s e = .ok s' ∧ s'.registry.Lists (connections (history.take (k + 1))) := by
  have hallowed := h.allowed he
  rw [connections_take_succ he]
  cases e with
  | accept viaUnix fd => exact serve_accept_lists l viaUnix hs hallowed.1 hallowed.2.2
  | close how fd =>
    exact (serve_close_lists_iff how hs hallowed (h.not_listening k fd hallowed)).mpr
      (hnewest how fd rfl)

/-- A history in which only the newest connection ends is followed by the registry. -/
theorem ClosesNewest.tracks {l : Listening} {history : List (ConnEvent ν)}
    (h : Admissible l history) (hnewest : ClosesNewest history) : TracksConnections l history := by
  intro k hk
  induction k with
  | zero => exact ⟨_, rfl, Registry.empty_lists⟩
  | succ k ih =>
    obtain ⟨s, hrun, hs⟩ := ih (by omega)
    have he : history[k]? = some history[k] := List.getElem?_eq_getElem (by omega)
    obtain ⟨s', hserve, hs'⟩ := serve_lists h he hs fun how fd heq =>
      hnewest k how fd (by rw [he, heq])
    refine ⟨s', ?_, hs'⟩
    rw [serveAll_take_succ he, hrun]
    exact hserve

/-- In a history that the registry follows only the newest connection ends. -/
theorem TracksConnections.closesNewest {l : Listening} {history : List (ConnEvent ν)}
    (h : Admissible l history) (htracks : TracksConnections l history) :
    ClosesNewest history := by
  intro k how fd he
  obtain ⟨hk, -⟩ := List.getElem?_eq_some_iff.mp he
  obtain ⟨s, hrun, hs⟩ := htracks k (by omega)
  obtain ⟨s', hrun', hs'⟩ := htracks (k + 1) (by omega)
  rw [serveAll_take_succ he, hrun] at hrun'
  rw [connections_take_succ he] at hs'
  have hfd : fd ∈ connections (history.take k) := h.allowed he
  exact (serve_close_lists_iff how hs hfd (h.not_listening k fd hfd)).mp ⟨s', hrun', hs'⟩

/-- **When the registry follows the connections**: in the histories in which every connection
that ends is the newest of those open, and in no other.
SOURCE: cw10/zad1/server.c:309-331 -/
theorem tracks_connections_iff {l : Listening} {history : List (ConnEvent ν)}
    (h : Admissible l history) : TracksConnections l history ↔ ClosesNewest history :=
  ⟨TracksConnections.closesNewest h, ClosesNewest.tracks h⟩

/-- Two clients connect, the second leaves and a third takes its place. -/
theorem tracks_connections_of_three :
    TracksConnections (ν := Unit) ⟨3, 4⟩
      [.accept false 6, .accept true 7, .close .hangUp 7, .accept false 8] := by
  apply (tracks_connections_iff (by decide)).mpr
  intro k how fd he
  match k with
  | 0 => cases he
  | 1 => cases he
  | 2 =>
    cases he
    decide
  | 3 => cases he
  | k + 4 => cases he

/-- **The first of three clients leaves**: the registry then lists the second one twice and
the third not at all. -/
theorem first_of_three_leaves :
    let history : List (ConnEvent Unit) :=
      [.accept false 6, .accept false 7, .accept false 8, .close .zeroRead 6]
    Admissible ⟨3, 4⟩ history ∧
      (serveAll ⟨3, 4⟩ history .start).map (fun s => s.registry.registered) = .ok [7, 7] ∧
      ¬ TracksConnections ⟨3, 4⟩ history := by
  intro history
  have hadm : Admissible ⟨3, 4⟩ history := by decide
  have hrun : (serveAll ⟨3, 4⟩ history .start).map (fun s => s.registry.registered) =
      .ok [7, 7] := by decide +kernel
  refine ⟨hadm, hrun, ?_⟩
  intro htracks
  obtain ⟨s, hs, hlists⟩ := htracks 4 (by decide)
  have hentries := hlists.entries
  rw [show history.take 4 = history from rfl] at hs
  rw [hs] at hrun
  have hreg : s.registry.registered = [7, 7] := Except.ok.inj hrun
  rw [hreg] at hentries
  exact absurd hentries (by decide)

end SystemyOperacyjne.ComputeServer
