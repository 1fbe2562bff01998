import SystemyOperacyjne.Analysis.SysVLockstep

/-!
# Which clients wait for ever

A client of `cw06/zad1` waits in `msgrcv` without an end of its own. Whether it can come back
depends on the order in the server's queue alone: what stands in front of the first `ServiceTerm`
is answered, and what stands behind it never is, whatever the other clients do (`can_return_iff`).
-/

set_option autoImplicit false

namespace SystemyOperacyjne.SysVMessages

open Library

variable {κ : Type} [DecidableEq κ] {queueID : κ → ℤ} {s s' : State κ} {k : κ} {e : Event κ}

/-! ## What a client's step leaves alone -/

/-- **What a client's step leaves alone**: the server, the other clients and their queues. What it
sends is signed by itself, in its loop as its last message was. -/
structure ClientStep (queueID : κ → ℤ) (k : κ) (s s' : State κ) : Prop where
  serverPc : s'.serverPc = s.serverPc
  client : ∀ k', k' ≠ k → s'.client k' = s.client k'
  clientQueue : ∀ id, id ≠ queueID k → s'.clientQueue id = s.clientQueue id
  sends : ∃ sent : List (Msgbuf κ), s'.serverQueue = s.serverQueue.map (· ++ sent) ∧
    ∀ m ∈ sent, m.clientPID = k ∨
      (s.client k).pc = .command ∧ m.clientPID = (s.client k).msg.clientPID

/-- A client that goes on without a message. -/
theorem ClientStep.goes {c : Client κ} : ClientStep queueID k s (s.setClient k c) where
  serverPc := rfl
  client _ hne := Function.update_of_ne hne _ _
  clientQueue _ _ := rfl
  sends := ⟨[], by simp [State.setClient], by simp⟩

/-- A client changes its own queue. -/
theorem ClientStep.moves {c : Client κ} {own : Option (List (Msgbuf κ))} :
    ClientStep queueID k s { s.setClient k c with
      clientQueue := Function.update s.clientQueue (queueID k) own } where
  serverPc := rfl
  client _ hne := Function.update_of_ne hne _ _
  clientQueue _ hne := Function.update_of_ne hne _ _
  sends := ⟨[], by simp [State.setClient], by simp⟩

/-- A client that sends. -/
theorem ClientStep.send {m : Msgbuf κ} {next : ClientPc}
    (h : msgSnd k m next s = (e, s'))
    (hm : m.clientPID = k ∨
      (s.client k).pc = .command ∧ m.clientPID = (s.client k).msg.clientPID) :
    ClientStep queueID k s s' := by
  unfold msgSnd at h
  dsimp only at h
  split at h
  · rename_i q hq
    cases h
    constructor
    · rfl
    · exact fun k' hne => Function.update_of_ne hne _ _
    · exact fun _ _ => rfl
    · exact ⟨[{ m.held with clientID := (s.client k).clientID }], by rw [hq]; rfl,
        by simpa using hm⟩
  · cases h
    exact .goes

/-- A client that receives. -/
theorem ClientStep.receive (h : msgRcv (queueID k) k s = some (e, s')) :
    ClientStep queueID k s s' := by
  unfold msgRcv at h
  dsimp only at h
  split at h
  · split at h
    all_goals
      cases h
      exact .moves
  · cases h

/-- A client that takes a word from its user. -/
theorem ClientStep.command {cmd word : Text} (hpc : (s.client k).pc = .command)
    (h : SysVMessages.command k cmd word s = (e, s')) : ClientStep queueID k s s' := by
  unfold SysVMessages.command at h
  dsimp only at h
  split_ifs at h
  · exact .send h (.inr ⟨hpc, rfl⟩)
  · exact .send h (.inr ⟨hpc, rfl⟩)
  · exact .send h (.inr ⟨hpc, rfl⟩)
  · exact .send h (.inr ⟨hpc, rfl⟩)
  · cases h
    exact ⟨rfl, fun _ _ => rfl, fun _ _ => rfl, [], by simp, by simp⟩

/-- **A step of a client** is such. -/
theorem ClientStep.clientMain {cmd word : Text}
    (h : clientMain (queueID k) k cmd word s = some (e, s')) : ClientStep queueID k s s' := by
  unfold SysVMessages.clientMain at h
  dsimp only at h
  split at h
  case h_1 =>
    split at h
    · cases h
      exact .moves
    · cases h
      exact .goes
  case h_2 => exact .send (Option.some.inj h) (.inl rfl)
  case h_3 => exact .receive h
  case h_4 => exact .receive h
  case h_5 hpc => exact .command hpc (Option.some.inj h)
  case h_6 =>
    cases h
    exact .moves
  case h_7 => cases h

/-- A client that waits takes its answer, and then waits no longer. -/
theorem clientMain_receiving {cmd word : Text} (hwaits : (s.client k).Receiving)
    (h : clientMain (queueID k) k cmd word s = some (e, s')) :
    (s.clientQueue (queueID k)).getD [] ≠ [] := by
  have hrcv : msgRcv (queueID k) k s = some (e, s') := by
    unfold clientMain at h
    rcases hwaits with hpc | hpc
    · simpa only [hpc] using h
    · simpa only [hpc] using h
  unfold msgRcv at hrcv
  dsimp only at hrcv
  split at hrcv
  · rename_i hown
    rw [hown]
    exact List.cons_ne_nil _ _
  · cases hrcv

/-! ## The server at its end -/

/-- The server has ended and removed its queue. -/
def State.Ended (s : State κ) : Prop :=
  s.serverPc = .exited ∧ s.serverQueue = none

/-- **Until its end the server is in lockstep with the clients.** -/
theorem ended_or_inv_invariant (hinj : Function.Injective queueID) :
    (program queueID).system.Invariant fun s => s.Ended ∨ Inv queueID s where
  init s h := .inr (inv_start h)
  step s e s' h := by
    rintro ⟨choice, hstep⟩
    rcases h with ⟨hexited, hnone⟩ | hI
    · have hremoved := removed_step hnone hstep
      cases choice with
      | client k cmd word =>
        exact .inl ⟨(ClientStep.clientMain hstep).serverPc.trans hexited, hremoved⟩
      | server time =>
        rcases serverMain_cases hstep with ⟨m, rest, hpc, -⟩ | ⟨m, hpc, -⟩
        · rw [hexited] at hpc
          cases hpc
        · rw [hexited] at hpc
          cases hpc
    · cases choice with
      | client k cmd word => exact .inr (hI.clientMain hinj hstep)
      | server time =>
        have hrunning := hI.running
        rcases hI.serverMain hinj hstep with hnone | hI'
        · rcases serverMain_cases hstep with ⟨m, rest, -, -, -, rfl⟩ | ⟨m, -, hrcv⟩
          · cases hnone
          · have hqueue := hI.queue
            rcases hrcv with ⟨_, _, -, -, rfl⟩ | ⟨-, -, rfl⟩ | ⟨-, -, rfl⟩
            · exact absurd hnone (Option.isSome_iff_ne_none.mp hqueue)
            · exact .inl ⟨rfl, rfl⟩
            · exact absurd hnone (Option.isSome_iff_ne_none.mp hqueue)
        · exact .inr hI'

/-! ## What is never answered -/

/-- What the server still deals with: what it has up to the first `ServiceTerm`. -/
def State.served (s : State κ) : List (Msgbuf κ) :=
  s.pending.takeWhile fun m => m.mtype ≠ .serviceTerm

omit [DecidableEq κ] in
/-- When the server has ended it serves nobody. -/
theorem State.Ended.served (h : s.Ended) : s.served = [] := by
  unfold State.served State.pending
  rw [h.1, h.2]
  rfl

omit [DecidableEq κ] in
/-- What is sent comes behind the others. -/
theorem mem_served_of_sends {sent : List (Msgbuf κ)} (hpc : s'.serverPc = s.serverPc)
    (hqueue : s.serverQueue.isSome) (hsent : s'.serverQueue = s.serverQueue.map (· ++ sent))
    {m : Msgbuf κ} (hm : m ∈ s'.served) : m ∈ s.served ∨ m ∈ sent := by
  have hpending : s'.pending = s.pending ++ sent := by
    obtain ⟨q, hq⟩ := Option.isSome_iff_exists.mp hqueue
    unfold State.pending
    rw [hpc, hsent, hq]
    cases s.serverPc <;> rfl
  unfold State.served at hm ⊢
  rw [hpending, List.takeWhile_append] at hm
  split at hm
  · rename_i hall
    rcases List.mem_append.mp hm with hm | hm
    · left
      rwa [(List.takeWhile_prefix _).eq_of_length hall]
    · exact .inr (List.takeWhile_subset _ hm)
  · exact .inl hm

/-- **The client waits for what will not come**: nothing is in its queue, and what the server still
deals with is not from it. -/
structure Forsaken (queueID : κ → ℤ) (k : κ) (s : State κ) : Prop where
  waits : (s.client k).Receiving
  own : (s.clientQueue (queueID k)).getD [] = []
  unserved : ∀ m ∈ s.served, m.clientPID ≠ k

/-- A waiting client has one request with the server, or one answer in its queue. -/
theorem Inv.waiting (h : Inv queueID s) (hwaits : (s.client k).Receiving) :
    (∃ r, s.requests k = [r]) ∧ s.clientQueue (queueID k) = some [] ∨
      s.requests k = [] ∧ ∃ a, s.clientQueue (queueID k) = some [a] := by
  have hstage := h.stage k
  unfold Stage at hstage
  rcases hwaits with hpc | hpc
  · simp only [hpc] at hstage
    obtain ⟨-, -, ⟨hrequests, hown⟩ | ⟨hrequests, a, hown, -⟩⟩ := hstage
    · exact .inl ⟨⟨_, hrequests⟩, hown⟩
    · exact .inr ⟨hrequests, a, hown⟩
  · simp only [hpc] at hstage
    obtain ⟨-, -, -, ⟨hrequests, hown⟩ | ⟨hrequests, a, hown, -⟩⟩ := hstage
    · exact .inl ⟨⟨_, hrequests⟩, hown⟩
    · exact .inr ⟨hrequests, a, hown⟩

/-- Its queue is empty exactly when its request is with the server. -/
theorem Inv.own_eq_nil_iff (h : Inv queueID s) (hwaits : (s.client k).Receiving) :
    (s.clientQueue (queueID k)).getD [] = [] ↔ ∃ r, s.requests k = [r] := by
  rcases h.waiting hwaits with ⟨hone, hown⟩ | ⟨hnone, a, hown⟩
  · simp [hone, hown]
  · simp [hnone, hown]

/-- Another client's step changes nothing about it. -/
theorem Forsaken.clientMain (hinj : Function.Injective queueID) (hinv : s.Ended ∨ Inv queueID s)
    (h : Forsaken queueID k s) {k' : κ} {cmd word : Text}
    (hstep : clientMain (queueID k') k' cmd word s = some (e, s')) : Forsaken queueID k s' := by
  have hne : k ≠ k' := by
    rintro rfl
    exact clientMain_receiving h.waits hstep h.own
  obtain ⟨hpc, hclient, hown, sent, hsent, hsigned⟩ := ClientStep.clientMain hstep
  constructor
  · rw [hclient k hne]
    exact h.waits
  · rw [hown _ (hinj.ne hne)]
    exact h.own
  · rcases hinv with hended | hI
    · have hended' : s'.Ended := ⟨hpc.trans hended.1, by rw [hsent, hended.2]; rfl⟩
      simp [hended'.served]
    · intro m hm
      rcases mem_served_of_sends hpc hI.queue hsent hm with hm | hm
      · exact h.unserved m hm
      · have hk' : m.clientPID = k' := by
          rcases hsigned m hm with hk' | ⟨hcommand, heq⟩
          · exact hk'
          · have hstage := hI.stage k'
            simp only [Stage, hcommand] at hstage
            exact heq.trans hstage.1.1
        rw [hk']
        exact hne.symm

/-- Dealing with a message takes it from those of its client. -/
theorem requests_handled {m : Msgbuf κ} (hpc : s.serverPc = .handle m) (server : Server)
    (queues : Queues κ) (k : κ) :
    s.requests k = (if m.clientPID = k then [m] else []) ++
      State.requests { s with serverPc := .receive, server, clientQueue := queues } k :=
  requests_handle hpc k

/-- **The server** does not answer it. -/
theorem Forsaken.serverMain (hinj : Function.Injective queueID) (hI : Inv queueID s)
    (h : Forsaken queueID k s) {time : Text} (hstep : serverMain time s = some (e, s')) :
    Forsaken queueID k s' := by
  rcases serverMain_cases hstep with ⟨m, rest, hpc, hq, rfl, rfl⟩ | ⟨m, hpc, hrcv⟩
  · refine ⟨h.waits, h.own, ?_⟩
    have hpending : State.pending { s with serverPc := .handle m, serverQueue := some rest } =
        s.pending := by
      unfold State.pending
      rw [hpc, hq]
      rfl
    unfold State.served
    rw [hpending]
    exact h.unserved
  · by_cases hterm : m.mtype = .serviceTerm
    · have hexit : s.server.msgRcv time m s.clientQueue = .error .exit := by
        simp [Server.msgRcv, hterm]
      rw [hexit] at hrcv
      rcases hrcv with ⟨_, _, hok, -⟩ | ⟨-, -, rfl⟩ | ⟨hfault, -⟩
      · cases hok
      · refine ⟨h.waits, h.own, ?_⟩
        have hended : State.Ended { s with serverPc := .exited, serverQueue := none } := ⟨rfl, rfl⟩
        rw [hended.served]
        simp
      · cases hfault
    · obtain ⟨server', queues', hok, hI'⟩ := hI.handle hinj hpc hterm time
      rw [hok] at hrcv
      rcases hrcv with ⟨_, _, heq, -, rfl⟩ | ⟨hexit, -⟩ | ⟨hfault, -⟩
      · cases heq
        have hserved : s.served = m :: State.served { s with
            serverPc := .receive, server := server', clientQueue := queues' } := by
          unfold State.served State.pending
          rw [hpc]
          simp [hterm]
        have hk : m.clientPID ≠ k := h.unserved m (by rw [hserved]; exact List.mem_cons_self)
        have hrequests := requests_handled hpc server' queues' k
        rw [if_neg hk, List.nil_append] at hrequests
        refine ⟨h.waits, ?_, ?_⟩
        · rw [hI'.own_eq_nil_iff h.waits, ← hrequests]
          exact (hI.own_eq_nil_iff h.waits).mp h.own
        · intro m' hm'
          apply h.unserved
          rw [hserved]
          exact List.mem_cons_of_mem _ hm'
      · cases hexit
      · cases hfault

/-- **It waits for ever.** -/
theorem Forsaken.run (hinj : Function.Injective queueID) (hinv : s.Ended ∨ Inv queueID s)
    (h : Forsaken queueID k s) {l : List (Event κ)} (run : (program queueID).system.Run s l s') :
    Forsaken queueID k s' := by
  suffices hboth : (s'.Ended ∨ Inv queueID s') ∧ Forsaken queueID k s' from hboth.2
  refine run.history_induction
    (I := fun _ s => (s.Ended ∨ Inv queueID s) ∧ Forsaken queueID k s) ?_ ⟨hinv, h⟩
  rintro l s e s' ⟨hinv, h⟩ ⟨choice, hstep⟩
  refine ⟨(ended_or_inv_invariant hinj).step s e s' hinv ⟨choice, hstep⟩, ?_⟩
  cases choice with
  | client k' cmd word => exact h.clientMain hinj hinv hstep
  | server time =>
    rcases hinv with hended | hI
    · have hnone : SysVMessages.serverMain time s = some (e, s') := hstep
      unfold SysVMessages.serverMain at hnone
      rw [hended.1] at hnone
      cases hnone
    · exact h.serverMain hinj hI hstep

/-! ## What is answered -/

/-- The answer is in the client's queue, or the server will deal with its request. -/
def Heard (queueID : κ → ℤ) (k : κ) (s : State κ) : Prop :=
  (s.clientQueue (queueID k)).getD [] ≠ [] ∨ ∃ m ∈ s.served, m.clientPID = k

/-- How many steps the server is from having dealt with all its messages. -/
def State.work (s : State κ) : ℕ :=
  2 * (s.serverQueue.getD []).length +
    match s.serverPc with
    | .handle _ => 1
    | _ => 0

/-- **The server goes on** until the client's answer is in its queue. -/
theorem Inv.exists_progress (hinj : Function.Injective queueID) (hI : Inv queueID s)
    (hwaits : (s.client k).Receiving) (hheard : Heard queueID k s)
    (hown : (s.clientQueue (queueID k)).getD [] = []) :
    ∃ e s', (program queueID).system.step s e s' ∧ (Inv queueID s' ∧ s'.client = s.client ∧
      Heard queueID k s') ∧ s'.work < s.work := by
  obtain ⟨m₀, hm₀, hk₀⟩ := hheard.resolve_left (not_not.mpr hown)
  rcases hI.running with hpc | ⟨m, hpc⟩
  · obtain ⟨q, hq⟩ := Option.isSome_iff_exists.mp hI.queue
    cases q with
    | nil =>
      unfold State.served State.pending at hm₀
      rw [hpc, hq] at hm₀
      cases hm₀
    | cons m rest =>
      let s' : State κ := { s with serverPc := .handle m, serverQueue := some rest }
      have hstep : SysVMessages.serverMain [] s = some (.takes m, s') := by
        simp [SysVMessages.serverMain, hpc, hq, s']
      have hpending : s'.pending = s.pending := by
        simp [State.pending, s', hpc, hq]
      refine ⟨_, s', ⟨.server [], hstep⟩, ⟨?_, rfl, .inr ⟨m₀, ?_, hk₀⟩⟩, ?_⟩
      · exact (hI.serverMain hinj hstep).resolve_left (by simp [s'])
      · unfold State.served at hm₀ ⊢
        rw [hpending]
        exact hm₀
      · simp only [State.work, s', hpc, hq, Option.getD_some, List.length_cons]
        omega
  · have hterm : m.mtype ≠ .serviceTerm := by
      intro hterm
      unfold State.served State.pending at hm₀
      rw [hpc] at hm₀
      simp [hterm] at hm₀
    obtain ⟨server', queues', hok, hI'⟩ := hI.handle hinj hpc hterm []
    let s' : State κ := { s with serverPc := .receive, server := server', clientQueue := queues' }
    have hstep : SysVMessages.serverMain [] s = some (.answers m, s') := by
      simp [SysVMessages.serverMain, hpc, hok, s']
    have hserved : s.served = m :: s'.served := by
      unfold State.served State.pending
      rw [hpc]
      simp [hterm, s']
    refine ⟨_, s', ⟨.server [], hstep⟩, ⟨hI', rfl, ?_⟩, ?_⟩
    · rw [hserved] at hm₀
      rcases List.mem_cons.mp hm₀ with rfl | hm₀
      · -- it was the client's only request
        left
        obtain ⟨r, hr⟩ := (hI.own_eq_nil_iff hwaits).mp hown
        have hrequests := requests_handled hpc server' queues' k
        rw [hr, if_pos hk₀] at hrequests
        intro hempty
        obtain ⟨r', hr'⟩ := (hI'.own_eq_nil_iff hwaits).mp hempty
        rw [hr'] at hrequests
        cases hrequests
      · exact .inr ⟨m₀, hm₀, hk₀⟩
    · simp [State.work, s', hpc]

/-- **The answer comes** into the client's queue. -/
theorem Inv.exists_answer (hinj : Function.Injective queueID) (hI : Inv queueID s)
    (hwaits : (s.client k).Receiving) (hheard : Heard queueID k s) :
    ∃ l s', (program queueID).system.Run s l s' ∧ (s'.client k).Receiving ∧
      (s'.clientQueue (queueID k)).getD [] ≠ [] := by
  have progress : ∀ s : State κ, Inv queueID s ∧ (s.client k).Receiving ∧ Heard queueID k s →
      ¬ (s.clientQueue (queueID k)).getD [] ≠ [] →
      ∃ e s', (program queueID).system.step s e s' ∧ True ∧
        (Inv queueID s' ∧ (s'.client k).Receiving ∧ Heard queueID k s') ∧ s'.work < s.work := by
    rintro s ⟨hI, hwaits, hheard⟩ hnot
    obtain ⟨e, s', hstep, ⟨hI', hclient, hheard'⟩, hlt⟩ :=
      hI.exists_progress hinj hwaits hheard (not_not.mp hnot)
    exact ⟨e, s', hstep, trivial, ⟨hI', by rwa [hclient], hheard'⟩, hlt⟩
  obtain ⟨l, s', run, -, hown, -, hwaits', -⟩ :=
    System.drain (fun _ => True) State.work progress ⟨hI, hwaits, hheard⟩
  exact ⟨l, s', run, hwaits', hown⟩

/-- A client whose queue holds a message takes it, and waits no longer. -/
theorem exists_receive (hwaits : (s.client k).Receiving)
    (hown : (s.clientQueue (queueID k)).getD [] ≠ []) :
    ∃ e s', (program queueID).system.step s e s' ∧ ¬ (s'.client k).Receiving := by
  have hmain : clientMain (queueID k) k [] [] s = msgRcv (queueID k) k s := by
    unfold clientMain
    rcases hwaits with hpc | hpc <;> simp only [hpc]
  have hrcv : ∃ e s', msgRcv (queueID k) k s = some (e, s') ∧ ¬ (s'.client k).Receiving := by
    unfold msgRcv
    dsimp only
    split
    · split
      all_goals
        refine ⟨_, _, rfl, ?_⟩
        simp [Client.Receiving, State.setClient]
    · rename_i hnone
      cases hq : s.clientQueue (queueID k) with
      | none => simp [hq] at hown
      | some q =>
        obtain ⟨a, rest, rfl⟩ := List.exists_cons_of_ne_nil (by simpa [hq] using hown)
        exact absurd hq (hnone a rest)
  obtain ⟨e, s', h, hnot⟩ := hrcv
  exact ⟨e, s', ⟨.client k [] [], hmain.trans h⟩, hnot⟩

/-- **Which waiting clients can come back**: those that have a message in their queue, or whose
request stands in front of every `ServiceTerm` that the server has got. All others wait for ever,
whatever the server and the other clients do.
SOURCE: cw06/zad1/server.c:40-94, cw06/zad1/client.c:30-108 -/
theorem can_return_iff (hinj : Function.Injective queueID)
    (h : (program queueID).system.Reachable s) (hwaits : (s.client k).Receiving) :
    (∃ l s', (program queueID).system.Run s l s' ∧ ¬ (s'.client k).Receiving) ↔
      (s.clientQueue (queueID k)).getD [] ≠ [] ∨
        ∃ m ∈ s.pending.takeWhile (fun m => m.mtype ≠ .serviceTerm), m.clientPID = k := by
  have hinv := (ended_or_inv_invariant hinj).reachable h
  constructor
  · rintro ⟨l, s', run, hnot⟩
    by_contra hforsaken
    push Not at hforsaken
    obtain ⟨hown, hunserved⟩ := hforsaken
    exact hnot (Forsaken.run hinj hinv ⟨hwaits, hown, hunserved⟩ run).waits
  · intro hheard
    by_cases hown : (s.clientQueue (queueID k)).getD [] = []
    · rcases hinv with hended | hI
      · obtain ⟨m, hm, -⟩ := hheard.resolve_left (not_not.mpr hown)
        have hm : m ∈ s.served := hm
        rw [hended.served] at hm
        cases hm
      · obtain ⟨l, s', run, hwaits', hown'⟩ := hI.exists_answer hinj hwaits hheard
        obtain ⟨e, s'', hstep, hnot⟩ := exists_receive hwaits' hown'
        exact ⟨l ++ [e], s'', run.append (.single hstep), hnot⟩
    · obtain ⟨e, s', hstep, hnot⟩ := exists_receive hwaits hown
      exact ⟨[e], s', .single hstep, hnot⟩

/-- Two clients are accepted, and a third asks; then the first sends a `ServiceTerm` and the second
an `echo`. -/
def termSchedule : List (Choice ℕ) :=
  [.client 0 [] [], .client 0 [] [], .client 1 [] [], .client 1 [] [], .server [], .server [],
    .server [], .server [], .client 0 [] [], .client 1 [] [], .client 2 [] [], .client 2 [] [],
    .client 0 "term".toList [], .client 1 "echo".toList "a".toList]

/-- What has happened then. -/
def termRun : List (Event ℕ) × State ℕ :=
  ((program queueNumber).exec (startState someMsg) termSchedule).get (by decide +kernel)

/-- The third client can come back, and the second cannot. -/
theorem can_return_iff_term :
    (∃ l s', (program queueNumber).system.Run termRun.2 l s' ∧ ¬ (s'.client 2).Receiving) ∧
      ¬ ∃ l s', (program queueNumber).system.Run termRun.2 l s' ∧ ¬ (s'.client 1).Receiving := by
  have hreach : (program queueNumber).system.Reachable termRun.2 := by
    unfold termRun
    exact Machine.exec_reachable (start_startState _ someMsg) _ _
  constructor
  · exact (can_return_iff queueNumber_injective hreach (by decide +kernel)).mpr
      (by decide +kernel)
  · intro hreturns
    exact absurd ((can_return_iff queueNumber_injective hreach (by decide +kernel)).mp hreturns)
      (by decide +kernel)

end SystemyOperacyjne.SysVMessages
