import Mathlib
import SystemyOperacyjne.Library.Worker
import SystemyOperacyjne.Analysis.PosixLogout
import SystemyOperacyjne.Analysis.SysVLockstep

/-!
# The end of the message queue servers

Both servers of `cw06` end at a `ServiceTerm` on the spot, where the assignment wants them to
go on until their queue is empty. What stands in the queue behind the message is not served:
from the moment the server takes the `ServiceTerm` it answers nothing, whatever the clients do.
-/

set_option autoImplicit false

namespace SystemyOperacyjne

open Library

variable {κ : Type}

/-! ## Over System V queues -/

namespace SysVMessages

/-- The server of `cw06/zad1` as a worker. -/
def worker (κ : Type) : Worker (State κ) (Event κ) (Msgbuf κ) where
  queue s := s.serverQueue.getD []
  holds s :=
    match s.serverPc with
    | .handle msg => some msg
    | _ => none
  gone s := s.serverPc = .exited
  takes
    | .takes msg => some msg
    | _ => none
  answers
    | .answers msg => some msg
    | _ => none

/-- The server holds a message while it handles it. -/
theorem worker_holds {s : State κ} {m : Msgbuf κ} :
    (worker κ).holds s = some m ↔ s.serverPc = .handle m := by
  cases hpc : s.serverPc <;> simp [worker, hpc]

/-- A step that neither takes nor answers leaves the server where it is. -/
theorem aside {s s' : State κ} {e : Event κ} (htakes : (worker κ).takes e = none)
    (hanswers : (worker κ).answers e = none) (hpc : s'.serverPc = s.serverPc) :
    (worker κ).Aside s e s' where
  takes := htakes
  answers := hanswers
  holds := by simp only [worker, hpc]
  gone hs := hpc.trans hs

variable [DecidableEq κ] {queueID : κ → ℤ}

/-- A send of a client is such a step. -/
theorem msgSnd_aside {k : κ} {m : Msgbuf κ} {pc : ClientPc} {s s' : State κ} {e : Event κ}
    (h : msgSnd k m pc s = (e, s')) : (worker κ).Aside s e s' := by
  unfold msgSnd at h
  dsimp only at h
  split at h
  all_goals
    cases h
    exact aside rfl rfl rfl

/-- So is a receive. -/
theorem msgRcv_aside {id : ℤ} {k : κ} {s s' : State κ} {e : Event κ}
    (h : msgRcv id k s = some (e, s')) : (worker κ).Aside s e s' := by
  unfold msgRcv at h
  dsimp only at h
  split at h
  · split at h
    all_goals
      cases h
      exact aside rfl rfl rfl
  · cases h

/-- The server takes no part in a client's step. -/
theorem clientMain_aside {id : ℤ} {k : κ} {cmd word : Text} {s s' : State κ} {e : Event κ}
    (h : clientMain id k cmd word s = some (e, s')) : (worker κ).Aside s e s' := by
  unfold clientMain at h
  dsimp only at h
  split at h
  · split at h
    all_goals
      cases h
      exact aside rfl rfl rfl
  · exact msgSnd_aside (Option.some.inj h)
  · exact msgRcv_aside h
  · exact msgRcv_aside h
  · have h := Option.some.inj h
    unfold command at h
    dsimp only at h
    split_ifs at h
    · exact msgSnd_aside h
    · exact msgSnd_aside h
    · exact msgSnd_aside h
    · exact msgSnd_aside h
    · cases h
      exact aside rfl rfl rfl
  · cases h
    exact aside rfl rfl rfl
  · cases h

/-- **The server stops at a `ServiceTerm`.** -/
theorem stopsAt_term {m : Msgbuf κ} (hm : m.mtype = .serviceTerm) :
    (worker κ).StopsAt (program queueID).system m := by
  rintro s e s' ⟨c, hstep⟩
  cases c with
  | client k cmd word => exact (clientMain_aside hstep).halts
  | server time =>
    have hexit : s.server.msgRcv time m s.clientQueue = .error .exit := by
      simp [Server.msgRcv, hm]
    rcases serverMain_cases hstep with ⟨m', rest, hpc, -, rfl, rfl⟩ | ⟨m', hpc, hrcv⟩
    · apply Worker.Halts.taking
      · simp [worker, hpc]
      · simp [worker, hpc]
      · rfl
    · apply Worker.Halts.handling
      · rcases hrcv with ⟨_, _, _, rfl, _⟩ | ⟨_, rfl, _⟩ | ⟨_, rfl, _⟩
        all_goals rfl
      · simp [worker, hpc]
      · intro hs
        rw [worker_holds, hpc] at hs
        cases hs
        rw [hexit] at hrcv
        rcases hrcv with ⟨_, _, hok, -⟩ | ⟨-, rfl, rfl⟩ | ⟨hfault, -⟩
        · cases hok
        · exact ⟨rfl, rfl⟩
        · cases hfault

end SysVMessages

/-! ## Over POSIX queues -/

namespace PosixMessages

/-- The server of `cw06/zad2` as a worker; its messages stand with their senders. -/
def worker (κ : Type) : Worker (State κ) (Event κ) (κ × Msgbuf) where
  queue s := s.serverQueue
  holds s :=
    match s.serverPc with
    | .handle k msg => some (k, msg)
    | _ => none
  gone s := s.serverPc = .exited
  takes
    | .takes k msg => some (k, msg)
    | _ => none
  answers
    | .handles k msg _ => some (k, msg)
    | _ => none

/-- The server holds a request, with its sender, while it handles it. -/
theorem worker_holds {s : State κ} {k : κ} {m : Msgbuf} :
    (worker κ).holds s = some (k, m) ↔ s.serverPc = .handle k m := by
  cases hpc : s.serverPc <;> simp [worker, hpc]

/-- A step of a client leaves the server where it is. -/
theorem aside {s s' : State κ} {e : Event κ} (he : e.OfClient)
    (hpc : s'.serverPc = s.serverPc) : (worker κ).Aside s e s' where
  takes := by
    cases e with
    | takes k m => exact he.elim
    | _ => rfl
  answers := by
    cases e with
    | handles k m id => exact he.elim
    | _ => rfl
  holds := by simp only [worker, hpc]
  gone hs := hpc.trans hs

variable [DecidableEq κ] {queueName : κ → SysVMessages.Text}

/-- **The server stops at a `ServiceTerm`.** -/
theorem stopsAt_term {k : κ} {m : Msgbuf} (hm : m.mtype = .serviceTerm) :
    (worker κ).StopsAt (program queueName).system (k, m) := by
  rintro s e s' ⟨c, hstep⟩
  cases c with
  | client k' cmd word =>
    obtain ⟨he, hpc⟩ := clientMain_event hstep
    exact (aside he hpc).halts
  | interrupt k' =>
    obtain ⟨he, hpc⟩ := interrupt_event hstep
    exact (aside he hpc).halts
  | server fd time =>
    have hexit : s.server.msgRcv fd time m s.clientQueue = .error .exit := by
      simp [Server.msgRcv, hm]
    rcases serverMain_cases hstep with
      ⟨k', m', rest, hpc, -, rfl, rfl⟩ | ⟨k', m', hpc, -, hrcv⟩
    · apply Worker.Halts.taking
      · simp [worker, hpc]
      · simp [worker, hpc]
      · rfl
    · apply Worker.Halts.handling
      · rcases hrcv with ⟨_, _, _, rfl, _⟩ | ⟨_, rfl, _⟩ | ⟨_, rfl, _⟩
        all_goals rfl
      · simp [worker, hpc]
      · intro hs
        rw [worker_holds, hpc] at hs
        cases hs
        rw [hexit] at hrcv
        rcases hrcv with ⟨_, _, hok, -⟩ | ⟨-, rfl, rfl⟩ | ⟨hfault, -⟩
        · cases hok
        · exact ⟨rfl, rfl⟩
        · cases hfault

end PosixMessages

/-! ## Both -/

variable {ι : Type} [DecidableEq ι] [DecidableEq κ]

/-- **An orderly end** of either server: once it has taken a `ServiceTerm`, the messages that
are in its queue then are answered before it exits if and only if none of them awaits an answer.
SOURCE: cw06/zad1/server.c:40-94, cw06/zad2/server.c:58-120, cw06/Zadanie6:24-26 -/
theorem serves_all_iff (queueID : ι → ℤ) (queueName : κ → SysVMessages.Text) :
    (∀ s₁ s₂ s₃ m l, (SysVMessages.program queueID).system.step s₁ (.takes m) s₂ →
      m.mtype = .serviceTerm → (SysVMessages.program queueID).system.Run s₂ l s₃ →
      s₃.serverPc = .exited →
      ((SysVMessages.worker ι).ServesAll (fun m => m.AwaitsAnswer) s₂ l ↔
        ∀ m' ∈ (SysVMessages.worker ι).queue s₂, ¬ m'.AwaitsAnswer)) ∧
    ∀ s₁ s₂ s₃ k m l, (PosixMessages.program queueName).system.step s₁ (.takes k m) s₂ →
      m.mtype = .serviceTerm → (PosixMessages.program queueName).system.Run s₂ l s₃ →
      s₃.serverPc = .exited →
      ((PosixMessages.worker κ).ServesAll (fun p => p.2.AwaitsAnswer) s₂ l ↔
        ∀ p ∈ (PosixMessages.worker κ).queue s₂, ¬ p.2.AwaitsAnswer) := by
  constructor
  · intro s₁ s₂ s₃ m l htake hm hrun _
    exact (SysVMessages.stopsAt_term hm).servesAll_iff htake rfl hrun
  · intro s₁ s₂ s₃ k m l htake hm hrun _
    exact (PosixMessages.stopsAt_term hm).servesAll_iff htake rfl hrun

/-- `cw06/zad1` with the clients' queues numbered as the clients. -/
abbrev sysV : Machine (SysVMessages.State ℕ) (SysVMessages.Choice ℕ) (SysVMessages.Event ℕ) :=
  SysVMessages.program SysVMessages.queueNumber

/-- `cw06/zad2` with at most five clients. -/
abbrev posix : Machine (PosixMessages.State (Fin 5)) (PosixMessages.Choice (Fin 5))
    (PosixMessages.Event (Fin 5)) :=
  PosixMessages.program PosixMessages.processQueue

/-- Two clients of `cw06/zad1` are accepted; the first asks for `term`, the second for `cmd`. -/
def sysVSchedule (cmd : String) : List (SysVMessages.Choice ℕ) :=
  [.client 0 [] [], .client 1 [] [], .client 0 [] [], .client 1 [] [], .server [], .server [],
    .server [], .server [], .client 0 [] [], .client 1 [] [], .client 0 "term".toList [],
    .client 1 cmd.toList "ab".toList]

/-- For the numerals of `Fin 5`. -/
local instance neZero_five : NeZero 5 := ⟨by decide⟩

/-- Two clients of `cw06/zad2` are accepted, and the first asks for `term`. -/
def posixSchedule : List (PosixMessages.Choice (Fin 5)) :=
  PosixMessages.connects 0 4 ++ PosixMessages.connects 1 5 ++
    [.client 0 [] [], .client 1 [] [], .client 0 "term".toList []]

/-- **Nothing to answer**: behind the `term` there is another `term`, or the client's logout. -/
theorem serves_all_term_and_logout :
    (∃ s₂ l s₃, sysV.system.Run s₂ l s₃ ∧ s₃.serverPc = .exited ∧
      s₂.serverQueue = some [⟨.serviceTerm, 1, 1, 1, []⟩] ∧
      (SysVMessages.worker ℕ).ServesAll (fun m => m.AwaitsAnswer) s₂ l) ∧
    ∃ s₂ l s₃, posix.system.Run s₂ l s₃ ∧ s₃.serverPc = .exited ∧
      s₂.serverQueue = [(0, ⟨.clientLogout, 0, []⟩)] ∧
      (PosixMessages.worker (Fin 5)).ServesAll (fun p => p.2.AwaitsAnswer) s₂ l := by
  obtain ⟨hsysV, hposix⟩ := serves_all_iff SysVMessages.queueNumber PosixMessages.processQueue
  constructor
  · obtain ⟨-, s₁, e, s₂, l, s₃, -, htake, hrun, hobs⟩ := sysV.exec_observed
      (SysVMessages.startState SysVMessages.someMsg) (sysVSchedule "term") (.server [])
      [.server []] (fun e s₂ _ s₃ => (e, s₂.serverQueue, s₃.serverPc))
      (b := (.takes ⟨.serviceTerm, 0, 0, 0, []⟩, some [⟨.serviceTerm, 1, 1, 1, []⟩], .exited))
      (by decide +kernel)
    simp only [Prod.mk.injEq] at hobs
    obtain ⟨rfl, hqueue, hexited⟩ := hobs
    refine ⟨s₂, l, s₃, hrun, hexited, hqueue, ?_⟩
    apply (hsysV s₁ s₂ s₃ _ l htake rfl hrun hexited).mpr
    simp [SysVMessages.worker, hqueue, SysVMessages.Msgbuf.AwaitsAnswer]
  · obtain ⟨-, s₁, e, s₂, l, s₃, -, htake, hrun, hobs⟩ := posix.exec_observed
      (PosixMessages.startState PosixMessages.someMsg) (posixSchedule ++ [.client 0 [] []])
      (.server 6 []) [.server 6 []] (fun e s₂ _ s₃ => (e, s₂.serverQueue, s₃.serverPc))
      (b := (.takes 0 ⟨.serviceTerm, 0, PosixMessages.processQueue 0⟩,
        [(0, ⟨.clientLogout, 0, []⟩)], .exited))
      (by decide +kernel)
    simp only [Prod.mk.injEq] at hobs
    obtain ⟨rfl, hqueue, hexited⟩ := hobs
    refine ⟨s₂, l, s₃, hrun, hexited, hqueue, ?_⟩
    apply (hposix s₁ s₂ s₃ 0 _ l htake rfl hrun hexited).mpr
    simp [PosixMessages.worker, hqueue, PosixMessages.Msgbuf.AwaitsAnswer]

/-- **An `echo` behind the `term`** is not answered by either server. -/
theorem echo_unanswered :
    (∃ s₁ s₂ s₃ m l, sysV.system.Reachable s₁ ∧ sysV.system.step s₁ (.takes m) s₂ ∧
      m.mtype = .serviceTerm ∧ sysV.system.Run s₂ l s₃ ∧ s₃.serverPc = .exited ∧
      ¬ (SysVMessages.worker ℕ).ServesAll (fun m => m.AwaitsAnswer) s₂ l) ∧
    ∃ s₁ s₂ s₃ k m l, posix.system.Reachable s₁ ∧ posix.system.step s₁ (.takes k m) s₂ ∧
      m.mtype = .serviceTerm ∧ posix.system.Run s₂ l s₃ ∧ s₃.serverPc = .exited ∧
      ¬ (PosixMessages.worker (Fin 5)).ServesAll (fun p => p.2.AwaitsAnswer) s₂ l := by
  constructor
  · obtain ⟨l₁, s₁, e, s₂, l, s₃, hreach, htake, hrun, hobs⟩ := sysV.exec_observed
      (SysVMessages.startState SysVMessages.someMsg) (sysVSchedule "echo") (.server [])
      [.server []] (fun e s₂ l s₃ => (e, s₂.serverQueue, l, s₃.serverPc))
      (b := (.takes ⟨.serviceTerm, 0, 0, 0, []⟩, some [⟨.serviceEcho, 1, 1, 1, "ab".toList⟩],
        [.stops ⟨.serviceTerm, 0, 0, 0, []⟩], .exited))
      (by decide +kernel)
    simp only [Prod.mk.injEq] at hobs
    obtain ⟨rfl, hqueue, rfl, hexited⟩ := hobs
    refine ⟨s₁, s₂, s₃, _, _, ⟨_, _, SysVMessages.start_startState _ _, hreach⟩, htake, rfl,
      hrun, hexited, ?_⟩
    simp [Worker.ServesAll, SysVMessages.worker, hqueue, SysVMessages.Msgbuf.AwaitsAnswer]
  · obtain ⟨l₁, s₁, e, s₂, l, s₃, hreach, htake, hrun, hobs⟩ := posix.exec_observed
      (PosixMessages.startState PosixMessages.someMsg)
      (posixSchedule ++ [.client 1 "echo".toList "ab".toList])
      (.server 6 []) [.server 6 []] (fun e s₂ l s₃ => (e, s₂.serverQueue, l, s₃.serverPc))
      (b := (.takes 0 ⟨.serviceTerm, 0, PosixMessages.processQueue 0⟩,
        [(1, ⟨.serviceEcho, 1, "ab".toList⟩)],
        [.stops 0 ⟨.serviceTerm, 0, PosixMessages.processQueue 0⟩], .exited))
      (by decide +kernel)
    simp only [Prod.mk.injEq] at hobs
    obtain ⟨rfl, hqueue, rfl, hexited⟩ := hobs
    refine ⟨s₁, s₂, s₃, 0, _, _, ⟨_, _, PosixMessages.start_startState _ _, hreach⟩, htake,
      rfl, hrun, hexited, ?_⟩
    simp [Worker.ServesAll, PosixMessages.worker, hqueue, PosixMessages.Msgbuf.AwaitsAnswer]

end SystemyOperacyjne
