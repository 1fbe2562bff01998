import SystemyOperacyjne.Model.DatagramLoop

/-!
# Whether the datagram server comes back to `epoll_wait`

Nothing leads out of the loop around `recvfrom`, so `serverTask` only calls `epoll_wait` again
while it has not received anything (`Waits`). A datagram that is queued keeps it from ever being
back with nothing left to do (`dispatched_iff`).
-/

set_option autoImplicit false

namespace SystemyOperacyjne.DatagramServer

open Library ComputeServer

variable {ν κ : Type} {n : Sockets κ} {hub : Hub ν κ} {t t' : Serving ν κ}

/-- **Before the first `recvfrom`** the datagrams are those that were queued. -/
def Waits (hub : Hub ν κ) (t : Serving ν κ) : Prop :=
  match t.control with
  | .epollWait | .event _ _ => t.hub.queue = hub.queue
  | .recvfrom _ _ _ => True

/-- A step keeps to the datagrams that were queued, or is one of the loop around `recvfrom`. -/
theorem Waits.step {events : List Ready} (h : Waits hub t)
    (hstep : serverTask n events t = some t') : Waits hub t' := by
  unfold serverTask at hstep
  split at hstep
  · rename_i hcontrol
    rw [Waits, hcontrol] at h
    split at hstep
    · cases hstep
      exact h
    · cases hstep
  · rename_i evs i hcontrol
    rw [Waits, hcontrol] at h
    split at hstep
    · cases hstep
      exact h
    · split at hstep
      · split at hstep
        · cases hstep
          exact h
        · simp only [Option.bind_eq_bind, Option.bind_eq_some_iff] at hstep
          obtain ⟨registry, -, heq⟩ := hstep
          cases heq
          exact h
      · cases hstep
        exact trivial
  · split at hstep
    · cases hstep
    · split at hstep
      · simp only [Option.bind_eq_bind, Option.bind_eq_some_iff] at hstep
        obtain ⟨registry, -, heq⟩ := hstep
        cases heq
        exact trivial
      · cases hstep

/-- It holds of every reachable state. -/
theorem waits_invariant (n : Sockets κ) (hub : Hub ν κ) :
    System.Invariant (dispatcher n hub).system (Waits hub) := by
  constructor
  · intro t ht
    cases ht
    exact rfl
  · intro t e t' ht hstep
    obtain ⟨events, hnext⟩ := hstep
    simp only [dispatcher, Option.map_eq_some_iff] at hnext
    obtain ⟨t₁, hstep, heq⟩ := hnext
    cases heq
    exact ht.step hstep

/-- All datagrams have been dispatched, and `serverTask` is at `epoll_wait`. -/
def Done (n : Sockets κ) (t : Serving ν κ) : Prop :=
  t.control = .epollWait ∧ t.hub.queue n.unSock = [] ∧ t.hub.queue n.netSock = []

/-- Whatever `serverTask` has done, it can go on to dispatch the rest and call `epoll_wait`. -/
def DispatchesAll (n : Sockets κ) (hub : Hub ν κ) : Prop :=
  ∀ t, (dispatcher n hub).system.Reachable t →
    ∃ l t', (dispatcher n hub).system.Run t l t' ∧ Done n t'

/-- Where `serverTask` is done, it has not begun. -/
theorem queues_of_done (ht : (dispatcher n hub).system.Reachable t) (h : Done n t) :
    hub.queue n.unSock = [] ∧ hub.queue n.netSock = [] := by
  obtain ⟨hcontrol, hun, hnet⟩ := h
  have hwaits := (waits_invariant n hub).reachable ht
  rw [Waits, hcontrol] at hwaits
  rw [hwaits] at hun hnet
  exact ⟨hun, hnet⟩

/-- `serverTask` starts at `epoll_wait`. -/
theorem reachable_start (n : Sockets κ) (hub : Hub ν κ) :
    (dispatcher n hub).system.Reachable { control := .epollWait, hub := hub } :=
  ⟨_, [], rfl, .nil _⟩

/-- `epoll_wait` does not return while nothing is queued. -/
theorem no_step_of_empty (hun : hub.queue n.unSock = []) (hnet : hub.queue n.netSock = [])
    (events : List Ready) : serverTask n events { control := .epollWait, hub := hub } = none := by
  have hreported : reported n hub events = false := by
    cases events with
    | nil => rfl
    | cons e events =>
      by_contra h
      rw [Bool.not_eq_false] at h
      simp only [reported, List.all_cons, Bool.and_eq_true, Bool.or_eq_true,
        decide_eq_true_eq] at h
      obtain ⟨⟨-, ⟨⟨⟨⟨hfd, hqueue⟩, -⟩, -⟩, -⟩, -⟩, -⟩ := h
      rcases hfd with hfd | hfd
      · rw [hfd, hun] at hqueue
        cases hqueue
      · rw [hfd, hnet] at hqueue
        cases hqueue
  rw [serverTask, hreported]
  rfl

/-- **Datagram dispatch**. `serverTask` dispatches what is queued on its sockets and returns to
`epoll_wait` exactly when nothing is queued on either. With a datagram on one of them no run at
all leads it there.
SOURCE: cw10/zad2/server.c:63-132 -/
theorem dispatched_iff (n : Sockets κ) (hub : Hub ν κ) :
    (DispatchesAll n hub ↔ hub.queue n.unSock = [] ∧ hub.queue n.netSock = []) ∧
    ((∃ t, (dispatcher n hub).system.Reachable t ∧ Done n t) ↔
      hub.queue n.unSock = [] ∧ hub.queue n.netSock = []) := by
  constructor
  · constructor
    · intro h
      obtain ⟨l, t, hrun, ht⟩ := h _ (reachable_start n hub)
      exact queues_of_done ((reachable_start n hub).run hrun) ht
    · intro ⟨hun, hnet⟩ t ht
      have hinv : System.Invariant (dispatcher n hub).system
          (fun t => t = { control := .epollWait, hub := hub }) := by
        constructor
        · intro t ht
          exact ht
        · intro t e t' ht ⟨events, hnext⟩
          cases ht
          simp only [dispatcher, no_step_of_empty hun hnet events] at hnext
          cases hnext
      have heq := hinv.reachable ht
      exact ⟨[], t, .nil t, by rw [heq]; exact ⟨rfl, hun, hnet⟩⟩
  · constructor
    · intro ⟨t, ht, hgoal⟩
      exact queues_of_done ht hgoal
    · intro ⟨hun, hnet⟩
      exact ⟨_, reachable_start n hub, rfl, hun, hnet⟩

/-- A server with the sockets 3 and 4, to which one `PING` has come through the Unix socket. -/
def onePing : Hub ℤ Unit :=
  let msg : Message ℤ := ⟨.ping, 0, 0, 0, 0, .add, ""⟩
  { Hub.initial ⟨3, 4, fun _ => true⟩ msg msg with
    queue := fun fd => if fd = 3 then [(.of (), msg)] else [] }

/-- The `PING` is received, and `serverTask` waits for the next datagram for ever. -/
theorem onePing_not_dispatched : ¬ DispatchesAll ⟨3, 4, fun _ => true⟩ onePing := by
  intro h
  have hstart := reachable_start ⟨3, 4, fun _ => true⟩ onePing
  obtain ⟨l, t, hrun, ht⟩ := h _ hstart
  have hqueue := (queues_of_done (hstart.run hrun) ht).1
  cases hqueue

end SystemyOperacyjne.DatagramServer
