import SystemyOperacyjne.Analysis.PosixHandling

/-!
# Closing the descriptor of a client that logs out

In a run of `cw06/zad2` whose steps are all harmless the server has a descriptor open for
every client it has accepted until this client's logout, and not after it
(`logout_right_iff`). `Inv` carries this along the run, with the order of each client's messages
and the bounds on their ids. In any such state a step is right exactly when it is harmless.
-/

set_option autoImplicit false

namespace SystemyOperacyjne.PosixMessages

open Library

variable {κ : Type}

/-! ## The invariant -/

/-- The messages the server has not dealt with: the one in its hands, and its queue. -/
def State.pending (s : State κ) : List (κ × Msgbuf) :=
  match s.serverPc with
  | .handle k msg => (k, msg) :: s.serverQueue
  | _ => s.serverQueue

/-- Those of client `k`. -/
def State.messages [DecidableEq κ] (s : State κ) (k : κ) : List Msgbuf :=
  (s.pending.filter fun p => p.1 = k).map Prod.snd

variable [DecidableEq κ] {queueName : κ → SysVMessages.Text}

/-- **The invariant of the runs whose steps are harmless.** -/
structure Inv (queueName : κ → SysVMessages.Text) (l : List (Event κ)) (s : State κ) : Prop where
  counter : s.server.clientsCounter ≤ maxClients
  unused : ∀ i, s.server.clientsCounter ≤ i → i < maxClients →
    s.server.clientsQueueIDS[i]? = some 0
  noFault : ∀ k msg, Event.faults k msg ∉ l
  accepted : ∀ k id, Accepted l k id → id < s.server.clientsCounter
  once : ∀ k id id', Accepted l k id → Accepted l k id' → id = id'
  noDescriptor : s.serverPc ≠ .exited → ∀ name, s.server.descriptors (-1) ≠ some (.queue name)
  isOpen : s.serverPc ≠ .exited → ∀ k id d, Accepted l k id →
    s.server.clientsQueueIDS[id]? = some d →
    (s.server.descriptors d = some (.queue (queueName k)) ↔ ¬ LoggedOut l k)
  order : ∀ k, Order l k (queueName k) (s.client k).pc (s.messages k)
  clientID : ∀ k, (s.client k).clientID < maxClients
  sentID : ∀ p ∈ s.pending, p.2.clientID < maxClients
  queues : s.clientQueue.Sound queueName

/-- An event that is not the server's verdict on a message. -/
def Event.Silent : Event κ → Prop
  | .handles _ _ _ | .faults _ _ => False
  | _ => True

omit [DecidableEq κ] in
/-- A silent event accepts nobody. -/
theorem Event.Silent.accepted {l : List (Event κ)} {e : Event κ} (he : e.Silent) (k : κ)
    (id : ℕ) : Accepted (l ++ [e]) k id ↔ Accepted l k id := by
  rw [accepted_concat, or_iff_left]
  rintro ⟨msg, rfl⟩
  exact he

omit [DecidableEq κ] in
/-- Nor does it log anybody out. -/
theorem Event.Silent.loggedOut {l : List (Event κ)} {e : Event κ} (he : e.Silent) (k : κ) :
    LoggedOut (l ++ [e]) k ↔ LoggedOut l k := by
  rw [loggedOut_concat, or_iff_left]
  rintro ⟨msg, id, -, rfl⟩
  exact he

/-- It holds in the beginning. -/
theorem inv_start {s : State κ} (h : Start queueName s) : Inv queueName [] s := by
  have hpending : s.pending = [] := by
    unfold State.pending
    rw [h.serverPc, h.serverQueue]
  have hnone : ∀ k id, ¬ Accepted ([] : List (Event κ)) k id := by
    rintro k id ⟨msg, hmem⟩
    cases hmem
  have hout : ∀ k, ¬ LoggedOut ([] : List (Event κ)) k := by
    rintro k ⟨msg, id, -, hmem⟩
    cases hmem
  constructor
  · simp [h.counter]
  · intro i _ hi
    simp [h.table, hi]
  · simp
  · exact fun k id hid => absurd hid (hnone k id)
  · exact fun k id _ hid => absurd hid (hnone k id)
  · exact fun _ name => h.descriptors (-1) name
  · exact fun _ k id _ hid => absurd hid (hnone k id)
  · intro k
    rw [State.messages, hpending]
    constructor
    · simp
    · simp
    · simp
    · simp
    · simp
    · exact fun ho => absurd ho (hout k)
    · exact fun _ => ⟨rfl, hnone k⟩
  · intro k
    rw [(h.client k).2]
    decide
  · simp [hpending]
  · intro k q hq
    rw [h.clientQueue k] at hq
    cases hq

/-- **A silent step about one client**: the invariant is about that client alone. -/
theorem Inv.client {l : List (Event κ)} {s s' : State κ} {e : Event κ} (h : Inv queueName l s)
    (he : e.Silent) (k : κ) (htable : s'.server.clientsQueueIDS = s.server.clientsQueueIDS)
    (hcounter : s'.server.clientsCounter = s.server.clientsCounter)
    (hruns : s'.serverPc ≠ .exited →
      s.serverPc ≠ .exited ∧ s'.server.descriptors = s.server.descriptors)
    (hclient : ∀ k', k' ≠ k → s'.client k' = s.client k')
    (hmessages : ∀ k', k' ≠ k → s'.messages k' = s.messages k')
    (horder : Order l k (queueName k) (s'.client k).pc (s'.messages k))
    (hid : (s'.client k).clientID < maxClients)
    (hsent : ∀ p ∈ s'.pending, p.2.clientID < maxClients)
    (hqueues : s'.clientQueue.Sound queueName) :
    Inv queueName (l ++ [e]) s' := by
  constructor
  · rw [hcounter]
    exact h.counter
  · rw [hcounter, htable]
    exact h.unused
  · intro k' msg hmem
    rcases List.mem_append.mp hmem with hmem | hmem
    · exact h.noFault k' msg hmem
    · rw [← List.mem_singleton.mp hmem] at he
      exact he
  · intro k' id hid'
    rw [hcounter]
    exact h.accepted k' id ((he.accepted k' id).mp hid')
  · intro k' id id' hid' hid''
    exact h.once k' id id' ((he.accepted k' id).mp hid') ((he.accepted k' id').mp hid'')
  · intro hpc
    rw [(hruns hpc).2]
    exact h.noDescriptor (hruns hpc).1
  · intro hpc k' id d hid' hd
    obtain ⟨hpc, hdescriptors⟩ := hruns hpc
    rw [htable] at hd
    rw [he.loggedOut, hdescriptors]
    exact h.isOpen hpc k' id d ((he.accepted k' id).mp hid') hd
  · intro k'
    apply Order.history (l := l) _ (he.accepted k') (he.loggedOut k')
    by_cases heq : k' = k
    · rw [heq]
      exact horder
    · rw [hclient k' heq, hmessages k' heq]
      exact h.order k'
  · intro k'
    by_cases heq : k' = k
    · rw [heq]
      exact hid
    · rw [hclient k' heq]
      exact h.clientID k'
  · exact hsent
  · exact hqueues

/-- **A client goes on** without a message to the server: client `k` as `c`, and the clients'
queues are `queues` then. -/
theorem Inv.moves {l : List (Event κ)} {s : State κ} {e : Event κ} (h : Inv queueName l s)
    (he : e.Silent) {k : κ} {c : Client} {queues : Queues}
    (hleft : (s.client k).pc = .unlink ∨ (s.client k).pc = .exited →
      c.pc = .unlink ∨ c.pc = .exited)
    (hearly : c.pc = .start ∨ c.pc = .request →
      (s.client k).pc = .start ∨ (s.client k).pc = .request)
    (hid : c.clientID < maxClients) (hqueues : queues.Sound queueName) :
    Inv queueName (l ++ [e]) { s.setClient k c with clientQueue := queues } := by
  have hself : (s.setClient k c).client k = c := Function.update_self _ _ _
  apply h.client he k
  · rfl
  · rfl
  · exact fun hpc => ⟨hpc, rfl⟩
  · exact fun k' hne => Function.update_of_ne hne _ _
  · exact fun _ _ => rfl
  · show Order l k (queueName k) ((s.setClient k c).client k).pc (s.messages k)
    rw [hself]
    exact (h.order k).move hleft hearly
  · show ((s.setClient k c).client k).clientID < maxClients
    rw [hself]
    exact hid
  · exact h.sentID
  · exact hqueues

/-- **A client sends a message** to the server. -/
theorem Inv.send {l : List (Event κ)} {s s' : State κ} {e : Event κ} (h : Inv queueName l s)
    {k : κ} {m : Msgbuf} {c : Client} (hstep : msgSnd k m c s = some (e, s'))
    (hunlink : (s.client k).pc ≠ .unlink) (hexited : (s.client k).pc ≠ .exited)
    (hstart : c.pc ≠ .start) (hnext : c.pc ≠ .request)
    (hid : c.clientID = (s.client k).clientID)
    (hrequest : m.mtype = .clientRequest → s.messages k = [] ∧ m.mtext = queueName k ∧
      ∀ id, ¬ Accepted l k id)
    (hlogout : m.mtype = .clientLogout → c.pc = .unlink) : Inv queueName (l ++ [e]) s' := by
  unfold msgSnd at hstep
  dsimp only at hstep
  split at hstep
  · cases hstep
    have hpending : State.pending { s.setClient k c with
        serverQueue := s.serverQueue ++ [(k, { m with clientID := c.clientID })] } =
        s.pending ++ [(k, { m with clientID := c.clientID })] := by
      unfold State.pending State.setClient
      cases s.serverPc <;> rfl
    have hself : (s.setClient k c).client k = c := Function.update_self _ _ _
    have hbound : c.clientID < maxClients := by
      rw [hid]
      exact h.clientID k
    apply h.client (by trivial) k
    · rfl
    · rfl
    · exact fun hpc => ⟨hpc, rfl⟩
    · exact fun k' hne => Function.update_of_ne hne _ _
    · intro k' hne
      rw [State.messages, hpending, List.filter_append, State.messages]
      simp [Ne.symm hne]
    · rw [State.messages, hpending, List.filter_append, List.map_append]
      show Order l k (queueName k) ((s.setClient k c).client k).pc _
      rw [hself]
      have hsend := (h.order k).send (m := { m with clientID := c.clientID }) hunlink hexited
        hstart hnext hrequest hlogout
      simpa [State.messages] using hsend
    · show ((s.setClient k c).client k).clientID < maxClients
      rw [hself]
      exact hbound
    · intro p hp
      rw [hpending] at hp
      rcases List.mem_append.mp hp with hp | hp
      · exact h.sentID p hp
      · rw [List.mem_singleton.mp hp]
        exact hbound
    · exact h.queues
  · cases hstep

/-- **A client receives.** An acceptance has an id of the table. -/
theorem Inv.receive {l : List (Event κ)} {s s' : State κ} {e : Event κ} (h : Inv queueName l s)
    {k : κ} (hpc : (s.client k).pc = .receiveFirst ∨ (s.client k).pc = .receive)
    (hstep : msgRcv (queueName k) k s = some (e, s')) : Inv queueName (l ++ [e]) s' := by
  unfold msgRcv at hstep
  dsimp only at hstep
  have hleft : ¬ ((s.client k).pc = .unlink ∨ (s.client k).pc = .exited) := by
    rcases hpc with hpc | hpc <;> simp [hpc]
  split at hstep
  · next msg rest hq =>
    have hqueues : Queues.Sound
        (Function.update s.clientQueue (queueName k) (some rest)) queueName := by
      apply h.queues.update
      intro k' l' hname hl' m hm
      cases hl'
      exact h.queues k' (msg :: rest) (hname ▸ hq) m (List.mem_cons_of_mem _ hm)
    split at hstep
    · next htype =>
      cases hstep
      apply h.moves (by trivial) (fun hout => absurd hout hleft) (by simp) _ hqueues
      exact h.queues k (msg :: rest) hq msg List.mem_cons_self htype
    · cases hstep
      exact h.moves (by trivial) (fun hout => absurd hout hleft) (by simp) (h.clientID k) hqueues
    · cases hstep
      exact h.moves (by trivial) (fun hout => absurd hout hleft) (by simp) (h.clientID k) hqueues
  · cases hstep

/-- **One turn of a client's loop**: a service, or a word that is no command. -/
theorem Inv.command {l : List (Event κ)} {s s' : State κ} {e : Event κ} (h : Inv queueName l s)
    {k : κ} {cmd word : SysVMessages.Text} (hpc : (s.client k).pc = .command)
    (hstep : PosixMessages.command k cmd word s = some (e, s')) : Inv queueName (l ++ [e]) s' := by
  -- what all four messages have in common
  have hservice : ∀ m c, msgSnd k m c s = some (e, s') → m.mtype ≠ .clientRequest →
      m.mtype ≠ .clientLogout → c.pc = .receive ∨ c.pc = .logout →
      c.clientID = (s.client k).clientID → Inv queueName (l ++ [e]) s' := by
    intro m c hsnd hrequest hlogout hc hid
    apply h.send hsnd
    · simp [hpc]
    · simp [hpc]
    · rcases hc with hc | hc <;> simp [hc]
    · rcases hc with hc | hc <;> simp [hc]
    · exact hid
    · exact fun heq => absurd heq hrequest
    · exact fun heq => absurd heq hlogout
  unfold PosixMessages.command at hstep
  dsimp only at hstep
  split_ifs at hstep
  · exact hservice _ _ hstep (by simp) (by simp) (.inl rfl) rfl
  · exact hservice _ _ hstep (by simp) (by simp) (.inl rfl) rfl
  · exact hservice _ _ hstep (by simp) (by simp) (.inl rfl) rfl
  · exact hservice _ _ hstep (by simp) (by simp) (.inr rfl) rfl
  · cases hstep
    apply h.client (by trivial) k
    · rfl
    · rfl
    · exact fun hpc => ⟨hpc, rfl⟩
    · exact fun _ _ => rfl
    · exact fun _ _ => rfl
    · exact h.order k
    · exact h.clientID k
    · exact h.sentID
    · exact h.queues

/-- **A step of a client.** -/
theorem Inv.clientMain {l : List (Event κ)} {s s' : State κ} {e : Event κ}
    (h : Inv queueName l s) {k : κ} {cmd word : SysVMessages.Text}
    (hstep : PosixMessages.clientMain (queueName k) k cmd word s = some (e, s')) :
    Inv queueName (l ++ [e]) s' := by
  unfold PosixMessages.clientMain at hstep
  dsimp only at hstep
  split at hstep
  case h_1 hpc =>
    split_ifs at hstep
    · cases hstep
      apply h.moves
      · trivial
      · simp [hpc]
      · simp [hpc]
      · exact h.clientID k
      · apply h.queues.update
        intro k' q _ hq
        cases hq
        simp
    · cases hstep
      apply h.moves
      · trivial
      · simp [hpc]
      · simp [hpc]
      · exact h.clientID k
      · exact h.queues
  case h_2 hpc =>
    obtain ⟨hempty, hnone⟩ := (h.order k).early (.inr hpc)
    apply h.send hstep
    · simp [hpc]
    · simp [hpc]
    · simp
    · simp
    · rfl
    · exact fun _ => ⟨hempty, rfl, hnone⟩
    · simp
  case h_3 hpc => exact h.receive (.inl hpc) hstep
  case h_4 hpc => exact h.receive (.inr hpc) hstep
  case h_5 hpc => exact h.command hpc hstep
  case h_6 hpc =>
    apply h.send hstep
    · simp [hpc]
    · simp [hpc]
    · simp
    · simp
    · rfl
    · simp
    · simp
  case h_7 hpc =>
    cases hstep
    apply h.moves
    · trivial
    · simp
    · simp
    · exact h.clientID k
    · apply h.queues.update
      intro k' q _ hq
      cases hq
  case h_8 => cases hstep

/-- **`SIGINT`** of a client. -/
theorem Inv.interrupt {l : List (Event κ)} {s s' : State κ} {e : Event κ}
    (h : Inv queueName l s) {k : κ} (hstep : PosixMessages.interrupt k s = some (e, s')) :
    Inv queueName (l ++ [e]) s' := by
  unfold PosixMessages.interrupt at hstep
  dsimp only at hstep
  split at hstep
  case h_5 => cases hstep
  all_goals
    next hpc =>
    cases hstep
    apply h.moves
    · trivial
    · simp [hpc]
    · simp
    · exact h.clientID k
    · exact h.queues

/-! ## The server's step -/

omit [DecidableEq κ] in
/-- Only a request gets an id, the one the counter is at. -/
theorem newID_eq_some {server : Server} {m : Msgbuf} {id : ℕ} :
    server.newID m = some id ↔ (m.mtype = .clientRequest ∧ server.clientsCounter < maxClients) ∧
      server.clientsCounter = id := by
  unfold Server.newID
  split_ifs with h
  · simp [h]
  · simp [h]

/-- The message in the server's hands is the first of the sender's. -/
theorem messages_handle {s : State κ} {k : κ} {m : Msgbuf} (hpc : s.serverPc = .handle k m) :
    s.messages k = m :: { s with serverPc := .receive : State κ }.messages k := by
  simp [State.messages, State.pending, hpc]

/-- For the other clients it is none of theirs. -/
theorem messages_handle_of_ne {s : State κ} {k k' : κ} {m : Msgbuf}
    (hpc : s.serverPc = .handle k m) (hne : k' ≠ k) :
    s.messages k' = { s with serverPc := .receive : State κ }.messages k' := by
  simp [State.messages, State.pending, hpc, hne.symm]

/-- **The server has handled a message.** What is left to show is about its table and its
descriptors. -/
theorem Inv.handled {l : List (Event κ)} {s : State κ} (h : Inv queueName l s) {k : κ} {m : Msgbuf}
    (hpc : s.serverPc = .handle k m) {server : Server} {queues : Queues}
    (hcounter : server.clientsCounter ≤ maxClients)
    (hmono : s.server.clientsCounter ≤ server.clientsCounter)
    (hnew : ∀ id, s.server.newID m = some id → id < server.clientsCounter)
    (hunused : ∀ i, server.clientsCounter ≤ i → i < maxClients →
      server.clientsQueueIDS[i]? = some 0)
    (hminus : ∀ name, server.descriptors (-1) ≠ some (.queue name))
    (hopen : ∀ k' id d, Accepted (l ++ [.handles k m (s.server.newID m)]) k' id →
      server.clientsQueueIDS[id]? = some d →
      (server.descriptors d = some (.queue (queueName k')) ↔
        ¬ LoggedOut (l ++ [.handles k m (s.server.newID m)]) k'))
    (hqueues : queues.Sound queueName) :
    Inv queueName (l ++ [.handles k m (s.server.newID m)])
      { s with serverPc := .receive, server := server, clientQueue := queues } := by
  have hfirst := h.order k
  rw [messages_handle hpc] at hfirst
  constructor
  · exact hcounter
  · exact hunused
  · intro k' msg hmem
    simp [h.noFault k' msg] at hmem
  · intro k' id hid
    rcases accepted_concat.mp hid with hid | ⟨msg, heq⟩
    · exact (h.accepted k' id hid).trans_le hmono
    · injection heq with _ _ hid
      exact hnew id hid
  · intro k' id id' hid hid'
    rcases accepted_concat.mp hid with hid | ⟨msg, heq⟩
    · rcases accepted_concat.mp hid' with hid' | ⟨msg, heq⟩
      · exact h.once k' id id' hid hid'
      · injection heq with hk _ hid'
        rw [← hk] at hid
        exact absurd (newID_eq_some.mp hid').1.1 (hfirst.requestOnce id hid m List.mem_cons_self)
    · injection heq with hk _ hnewID
      rcases accepted_concat.mp hid' with hid' | ⟨msg, heq⟩
      · rw [← hk] at hid'
        exact absurd (newID_eq_some.mp hnewID).1.1
          (hfirst.requestOnce id' hid' m List.mem_cons_self)
      · injection heq with _ _ hid'
        exact Option.some.inj (hnewID.symm.trans hid')
  · exact fun _ => hminus
  · exact fun _ => hopen
  · intro k'
    by_cases hk : k' = k
    · rw [hk]
      exact hfirst.handled _
    · show Order _ k' (queueName k') (s.client k').pc
        ({ s with serverPc := .receive : State κ }.messages k')
      rw [← messages_handle_of_ne hpc hk]
      apply (h.order k').history
      · intro id
        rw [accepted_concat, or_iff_left]
        rintro ⟨msg, heq⟩
        injection heq with hk'
        exact hk hk'.symm
      · rw [loggedOut_concat, or_iff_left]
        rintro ⟨msg, id, -, heq⟩
        injection heq with hk'
        exact hk hk'.symm
  · exact h.clientID
  · intro p hp
    apply h.sentID
    simpa [State.pending, hpc] using .inr hp
  · exact hqueues

section Verdicts

variable {l : List (Event κ)} {s : State κ} {k : κ} {m : Msgbuf} {fd : ℤ}

/-- What a message that is no logout, and whose id is not given to anybody, leaves as it was. -/
theorem Inv.kept (h : Inv queueName l s) (hpc : s.serverPc = .handle k m)
    (hlogout : m.mtype ≠ .clientLogout) (hnew : s.server.newID m = none) {server : Server}
    {queues : Queues} (htable : server.clientsQueueIDS = s.server.clientsQueueIDS)
    (hcounter : server.clientsCounter = s.server.clientsCounter)
    (hdescriptors : ∀ d, server.descriptors d = s.server.descriptors d ∨
      d = -1 ∧ server.descriptors d = none)
    (hqueues : queues.Sound queueName) :
    Inv queueName (l ++ [.handles k m (s.server.newID m)])
      { s with serverPc := .receive, server := server, clientQueue := queues } := by
  have hruns : s.serverPc ≠ .exited := by simp [hpc]
  have hfiles : ∀ d name, server.descriptors d = some (.queue name) ↔
      s.server.descriptors d = some (.queue name) := by
    intro d name
    rcases hdescriptors d with hsame | ⟨rfl, hnone⟩
    · rw [hsame]
    · simp [hnone, h.noDescriptor hruns name]
  apply h.handled hpc
  · rw [hcounter]
    exact h.counter
  · exact hcounter.ge
  · simp [hnew]
  · rw [htable, hcounter]
    exact h.unused
  · intro name
    rw [Ne, hfiles]
    exact h.noDescriptor hruns name
  · intro k' id d hid hd
    rw [htable] at hd
    rw [hfiles, loggedOut_concat, or_iff_left]
    · apply h.isOpen hruns k' id d _ hd
      rcases accepted_concat.mp hid with hid | ⟨msg, heq⟩
      · exact hid
      · injection heq with _ _ heq
        rw [hnew] at heq
        cases heq
    · rintro ⟨msg, id', htype, heq⟩
      injection heq with _ heq
      exact hlogout (heq ▸ htype)
  · exact hqueues

/-- **Accepting a client** opens a descriptor that nobody else has. -/
theorem Inv.accept (hinj : Function.Injective queueName) (h : Inv queueName l s)
    (hpc : s.serverPc = .handle k m) (hmsg : m.mtype = .clientRequest)
    (hroom : s.server.clientsCounter < maxClients)
    (hfd : 0 ≤ fd ∧ s.server.descriptors fd = none) (hqueue : s.clientQueue m.mtext ≠ none)
    {server : Server} {queues : Queues}
    (haccepts : s.server.Accepts server s.clientQueue fd m.mtext)
    (hqueues : queues.Sound queueName) :
    Inv queueName (l ++ [.handles k m (s.server.newID m)])
      { s with serverPc := .receive, server := server, clientQueue := queues } := by
  have hruns : s.serverPc ≠ .exited := by simp [hpc]
  obtain ⟨hcounter, d₀, htable, ⟨hgone, -⟩ | ⟨-, rfl, hopened⟩⟩ := haccepts
  · exact absurd hgone hqueue
  have hfirst := h.order k
  rw [messages_handle hpc] at hfirst
  have hname : m.mtext = queueName k := hfirst.requestName m List.mem_cons_self hmsg
  have hnotOut : ∀ k', LoggedOut (l ++ [.handles k m (s.server.newID m)]) k' ↔ LoggedOut l k' := by
    intro k'
    rw [loggedOut_concat, or_iff_left]
    rintro ⟨msg, id', htype, heq⟩
    injection heq with _ heq
    rw [← heq, hmsg] at htype
    cases htype
  apply h.handled hpc
  · omega
  · omega
  · intro id hid
    have := (newID_eq_some.mp hid).2
    omega
  · intro i hi hlt
    rw [htable, if_neg (by omega)]
    exact h.unused i (by omega) hlt
  · intro name
    rw [hopened, Function.update_of_ne (by omega)]
    exact h.noDescriptor hruns name
  · intro k' id d hid hd
    rw [hnotOut, hopened]
    rcases accepted_concat.mp hid with hid | ⟨msg, heq⟩
    · -- accepted before: a descriptor just opened is another client's
      have hlt := h.accepted k' id hid
      rw [htable, if_neg (by omega)] at hd
      have hold := h.isOpen hruns k' id d hid hd
      by_cases heq : d = d₀
      · have hne : queueName k ≠ queueName k' := by
          intro hk
          rw [← hinj hk] at hid
          exact hfirst.requestOnce id hid m List.mem_cons_self hmsg
        rw [heq, hfd.2] at hold
        rw [heq, Function.update_self, hname]
        simpa [hne] using hold
      · rw [Function.update_of_ne heq]
        exact hold
    · injection heq with hk _ hid
      rw [htable, if_pos (newID_eq_some.mp hid).2.symm] at hd
      have hout : ¬ LoggedOut l k := by
        intro hout
        simpa using (hfirst.loggedOut hout).1
      rw [← Option.some.inj hd, ← hk, Function.update_self, hname]
      simpa using hout
  · exact hqueues

/-- **A harmless logout.** -/
theorem Inv.logout (hinj : Function.Injective queueName) (h : Inv queueName l s)
    (hpc : s.serverPc = .handle k m) (hmsg : m.mtype = .clientLogout)
    (hharmless : HarmlessLogout l k s.server) :
    Inv queueName (l ++ [.handles k m (s.server.newID m)])
      { s with serverPc := .receive, server := mqClose 0 s.server } := by
  have hruns : s.serverPc ≠ .exited := by simp [hpc]
  have hfirst := h.order k
  rw [messages_handle hpc] at hfirst
  have hnotYet : ¬ LoggedOut l k := by
    intro hout
    simpa using (hfirst.loggedOut hout).1
  have hnew : s.server.newID m = none := by simp [Server.newID, hmsg]
  obtain ⟨hown, hothers⟩ := (logsOut_iff hharmless.1).mpr hharmless
  apply h.handled hpc
  · exact h.counter
  · exact le_rfl
  · simp [hnew]
  · exact h.unused
  · intro name
    simpa [mqClose] using h.noDescriptor hruns name
  · intro k' id d hevent hd
    change s.server.clientsQueueIDS[id]? = some d at hd
    have hid : Accepted l k' id := by
      rcases accepted_concat.mp hevent with hid | ⟨msg, heq⟩
      · exact hid
      · injection heq with _ _ heq
        rw [hnew] at heq
        cases heq
    have hold := h.isOpen hruns k' id d hid hd
    by_cases hk : k' = k
    · rw [hk] at hid ⊢
      rw [hown id d hid hd d, if_pos rfl, loggedOut_concat]
      simp [hmsg]
    · rw [loggedOut_concat, or_iff_left]
      · by_cases haccepted : ∃ id₀, Accepted l k id₀
        · obtain ⟨id₀, hid₀⟩ := haccepted
          have hbound := (h.accepted k id₀ hid₀).trans_le h.counter
          obtain ⟨d₀, hd₀⟩ : ∃ d₀, s.server.clientsQueueIDS[id₀]? = some d₀ :=
            ⟨_, Vector.getElem?_eq_getElem hbound⟩
          rw [hown id₀ d₀ hid₀ hd₀ d]
          split_ifs with heq
          · -- `d` is open for the client that logs out
            have hopen := (h.isOpen hruns k id₀ d hid₀ (heq ▸ hd₀)).mpr hnotYet
            rw [hopen] at hold
            have hname : queueName k ≠ queueName k' := fun hname => hk (hinj hname).symm
            simpa [hname] using hold
          · exact hold
        · rw [not_exists] at haccepted
          rw [hothers haccepted k' id d hid hd]
          exact hold
      · rintro ⟨msg, id', -, heq⟩
        injection heq with heq
        exact hk heq.symm
  · exact h.queues

/-- **What a logout can do**: the first entry that is not in use holds `0`, and behind a full
table there is none. -/
theorem Inv.logout_cases {s' : State κ} {e : Event κ} {time : SysVMessages.Text}
    (h : Inv queueName l s) (hpc : s.serverPc = .handle k m) (hlogout : m.mtype = .clientLogout)
    (hstep : serverMain fd time s = some (e, s')) :
    (s.server.clientsCounter < maxClients ∧ e = .handles k m (s.server.newID m) ∧
      s' = { s with serverPc := .receive, server := mqClose 0 s.server }) ∨
    ¬ s.server.clientsCounter < maxClients ∧ e = .faults k m := by
  rcases serverMain_cases hstep with ⟨k', m', rest, hpc', -⟩ | ⟨k', m', hpc', -, hrcv⟩
  · rw [hpc] at hpc'
    cases hpc'
  · rw [hpc] at hpc'
    cases hpc'
    by_cases hroom : s.server.clientsCounter < maxClients
    · rw [msgRcv_logout fd time hlogout (h.unused _ le_rfl hroom)] at hrcv
      rcases hrcv with ⟨server, queues, hok, rfl, rfl⟩ | ⟨hexit, -⟩ | ⟨hfault, -⟩
      · cases hok
        exact .inl ⟨hroom, rfl, rfl⟩
      · cases hexit
      · cases hfault
    · rw [msgRcv_logout_full fd time hlogout hroom] at hrcv
      rcases hrcv with ⟨server, queues, hok, -⟩ | ⟨hexit, -⟩ | ⟨-, rfl, -⟩
      · cases hok
      · cases hexit
      · exact .inr ⟨hroom, rfl⟩

/-- **Accepting is right** exactly when the client's queue is there. -/
theorem Inv.accept_right_iff (h : Inv queueName l s) (hpc : s.serverPc = .handle k m)
    (hmsg : m.mtype = .clientRequest) (hroom : s.server.clientsCounter < maxClients)
    {server : Server} {queues : Queues}
    (haccepts : s.server.Accepts server s.clientQueue fd m.mtext) :
    (Event.handles k m (s.server.newID m)).Right queueName l s
        { s with serverPc := .receive, server := server, clientQueue := queues } ↔
      (Event.handles k m (s.server.newID m)).Harmless l s := by
  have hfirst := h.order k
  rw [messages_handle hpc] at hfirst
  have hname : m.mtext = queueName k := hfirst.requestName m List.mem_cons_self hmsg
  have hnew : s.server.newID m = some s.server.clientsCounter :=
    newID_eq_some.mpr ⟨⟨hmsg, hroom⟩, rfl⟩
  obtain ⟨-, d, htable, hdescriptors⟩ := haccepts
  have hentry : server.clientsQueueIDS[s.server.clientsCounter]? = some d := by
    rw [htable, if_pos rfl]
  constructor
  · intro hright
    constructor
    · intro _ _ hgone
      obtain ⟨d', hd', hfile⟩ := hright.1 _ hnew
      rcases hdescriptors with ⟨-, rfl, hsame⟩ | ⟨hthere, -⟩
      · change server.clientsQueueIDS[_]? = some d' at hd'
        rw [hentry] at hd'
        change server.descriptors d' = _ at hfile
        rw [← Option.some.inj hd', hsame] at hfile
        exact h.noDescriptor (by simp [hpc]) _ hfile
      · exact hthere hgone
    · simp [hmsg]
  · intro hharmless
    constructor
    · intro i hi
      rw [hnew] at hi
      cases hi
      rcases hdescriptors with ⟨hgone, -⟩ | ⟨-, rfl, hopened⟩
      · exact absurd hgone (hharmless.1 hmsg hroom)
      · refine ⟨d, hentry, ?_⟩
        show server.descriptors d = _
        rw [hopened, Function.update_self, hname]
    · simp [hmsg]

/-- **Any message but a logout**: no access outside the table, and what is harmless is right
and keeps the invariant. -/
theorem Inv.msgRcv (time : SysVMessages.Text) (hinj : Function.Injective queueName)
    (h : Inv queueName l s) (hpc : s.serverPc = .handle k m) (hlogout : m.mtype ≠ .clientLogout)
    (hfd : 0 ≤ fd ∧ s.server.descriptors fd = none) :
    Within .undefined (s.server.msgRcv fd time m s.clientQueue) fun p =>
      ((Event.handles k m (s.server.newID m)).Right queueName l s
          { s with serverPc := .receive, server := p.1, clientQueue := p.2 } ↔
        (Event.handles k m (s.server.newID m)).Harmless l s) ∧
      ((Event.handles k m (s.server.newID m)).Harmless l s →
        Inv queueName (l ++ [.handles k m (s.server.newID m)])
          { s with serverPc := .receive, server := p.1, clientQueue := p.2 }) := by
  by_cases hmsg : m.mtype = .clientRequest
  · by_cases hroom : s.server.clientsCounter < maxClients
    · apply (msgRcv_accept_within fd time h.queues hmsg hroom).mono
      intro p hp
      constructor
      · exact h.accept_right_iff hpc hmsg hroom hp.1
      · exact fun he => h.accept hinj hpc hmsg hroom hfd (he.1 hmsg hroom) hp.1 hp.2
    · have hnew : s.server.newID m = none := by simp [Server.newID, hroom]
      apply (msgRcv_deny_within time h.queues hmsg hroom hfd.2).mono
      intro p ⟨htable, hcounter, hdescriptors, hqueues⟩
      constructor
      · simp [Event.Right, Event.Harmless, hnew, hlogout, hroom]
      · exact fun _ => h.kept hpc hlogout hnew htable hcounter hdescriptors hqueues
  · have hnew : s.server.newID m = none := by simp [Server.newID, hmsg]
    have hid : m.clientID < maxClients := by
      apply h.sentID (k, m)
      simp [State.pending, hpc]
    apply (msgRcv_other_within fd time h.queues hmsg hlogout hid).mono
    intro p ⟨hserver, hqueues⟩
    constructor
    · simp [Event.Right, Event.Harmless, hnew, hlogout, hmsg]
    · intro _
      apply h.kept hpc hlogout hnew _ _ _ hqueues
      · rw [hserver]
      · rw [hserver]
      · simp [hserver]

end Verdicts

/-- **The server exits** at the message in its hands. -/
theorem Inv.stops {l : List (Event κ)} {s : State κ} {k : κ} {m : Msgbuf} (h : Inv queueName l s)
    (hpc : s.serverPc = .handle k m) :
    Inv queueName (l ++ [.stops k m])
      { s with
        serverPc := .exited
        server := { s.server with descriptors := fun _ => none }
        linked := false } := by
  have hfirst := h.order k
  rw [messages_handle hpc] at hfirst
  apply h.client (by trivial) k
  · rfl
  · rfl
  · exact fun hruns => absurd rfl hruns
  · exact fun _ _ => rfl
  · exact fun k' hne => (messages_handle_of_ne hpc hne).symm
  · exact hfirst.rest
  · exact h.clientID k
  · intro p hp
    apply h.sentID
    simpa [State.pending, hpc] using .inr hp
  · exact h.queues

/-- **A step of the server** is right exactly when it is harmless, and then it keeps the
invariant. -/
theorem Inv.serverMain {l : List (Event κ)} {s s' : State κ} {e : Event κ} {fd : ℤ}
    {time : SysVMessages.Text} (hinj : Function.Injective queueName) (h : Inv queueName l s)
    (hstep : PosixMessages.serverMain fd time s = some (e, s')) :
    (e.Right queueName l s s' ↔ e.Harmless l s) ∧
      (e.Harmless l s → Inv queueName (l ++ [e]) s') := by
  rcases serverMain_cases hstep with ⟨k, m, rest, hpc, hqueue, rfl, rfl⟩ | ⟨k, m, hpc, hfd, hrcv⟩
  · have hpending : State.pending { s with serverPc := .handle k m, serverQueue := rest } =
        s.pending := by
      simp [State.pending, hpc, hqueue]
    refine ⟨Iff.rfl, fun _ => ?_⟩
    apply h.client (by trivial) k
    · rfl
    · rfl
    · exact fun _ => ⟨by simp [hpc], rfl⟩
    · exact fun _ _ => rfl
    · intro k' _
      rw [State.messages, hpending]
      rfl
    · rw [State.messages, hpending]
      exact h.order k
    · exact h.clientID k
    · rw [hpending]
      exact h.sentID
    · exact h.queues
  · by_cases hlogout : m.mtype = .clientLogout
    · have hnew : s.server.newID m = none := by simp [Server.newID, hlogout]
      rcases h.logout_cases hpc hlogout hstep with ⟨hroom, rfl, rfl⟩ | ⟨hfull, rfl⟩
      · constructor
        · simp [Event.Right, Event.Harmless, hnew, hlogout, logsOut_iff hroom]
        · exact fun he => h.logout hinj hpc hlogout (he.2 hlogout)
      · constructor
        · simp [Event.Right, Event.Harmless, HarmlessLogout, hlogout, hfull]
        · exact fun he => absurd (he hlogout).1 hfull
    · have hwithin := h.msgRcv time hinj hpc hlogout hfd
      rcases hrcv with ⟨server, queues, hok, rfl, rfl⟩ | ⟨-, rfl, rfl⟩ | ⟨hfault, -⟩
      · exact hwithin.post hok
      · exact ⟨Iff.rfl, fun _ => h.stops hpc⟩
      · exact absurd hfault hwithin.1

/-- The program with its history, in which every step is harmless. -/
def harmless (queueName : κ → SysVMessages.Text) : System (List (Event κ) × State κ) (Event κ) :=
  (program queueName).system.guarded fun l s e => e.Harmless l s

/-- The invariant holds in every such run. -/
theorem inv_harmless (hinj : Function.Injective queueName) {l : List (Event κ)} {s : State κ}
    (h : (harmless queueName).Reachable (l, s)) : Inv queueName l s := by
  apply System.guarded_induction (I := Inv queueName) _ _ h
  · exact fun s => inv_start
  · rintro l s e s' hinv ⟨c, hstep⟩ he
    cases c with
    | client k cmd word => exact hinv.clientMain hstep
    | interrupt k => exact hinv.interrupt hstep
    | server fd time => exact (hinv.serverMain hinj hstep).2 he

/-- An event of a client. -/
def Event.OfClient : Event κ → Prop
  | .takes _ _ | .handles _ _ _ | .stops _ _ | .faults _ _ => False
  | _ => True

omit [DecidableEq κ] in
/-- What a client does is silent. -/
theorem Event.OfClient.silent {e : Event κ} (he : e.OfClient) : e.Silent := by
  cases e with
  | handles k m id => exact he.elim
  | faults k m => exact he.elim
  | _ => trivial

/-- Sending a message is the client's, and leaves the server where it is. -/
theorem msgSnd_event {k : κ} {m : Msgbuf} {c : Client} {s s' : State κ} {e : Event κ}
    (h : msgSnd k m c s = some (e, s')) : e.OfClient ∧ s'.serverPc = s.serverPc := by
  unfold msgSnd at h
  dsimp only at h
  split at h
  · cases h
    exact ⟨trivial, rfl⟩
  · cases h

/-- A receive is an event of the client. -/
theorem msgRcv_event {name : SysVMessages.Text} {k : κ} {s s' : State κ} {e : Event κ}
    (h : msgRcv name k s = some (e, s')) : e.OfClient ∧ s'.serverPc = s.serverPc := by
  unfold msgRcv at h
  dsimp only at h
  split at h
  · split at h
    all_goals
      cases h
      exact ⟨trivial, rfl⟩
  · cases h

/-- **The steps of a client** are its own, and leave the server where it is. -/
theorem clientMain_event {name : SysVMessages.Text} {k : κ} {cmd word : SysVMessages.Text}
    {s s' : State κ} {e : Event κ} (h : clientMain name k cmd word s = some (e, s')) :
    e.OfClient ∧ s'.serverPc = s.serverPc := by
  unfold clientMain at h
  dsimp only at h
  split at h
  · split_ifs at h
    all_goals
      cases h
      exact ⟨trivial, rfl⟩
  · exact msgSnd_event h
  · exact msgRcv_event h
  · exact msgRcv_event h
  · unfold command at h
    dsimp only at h
    split_ifs at h
    · exact msgSnd_event h
    · exact msgSnd_event h
    · exact msgSnd_event h
    · exact msgSnd_event h
    · cases h
      exact ⟨trivial, rfl⟩
  · exact msgSnd_event h
  · cases h
    exact ⟨trivial, rfl⟩
  · cases h

/-- So is an interruption. -/
theorem interrupt_event {k : κ} {s s' : State κ} {e : Event κ}
    (h : interrupt k s = some (e, s')) : e.OfClient ∧ s'.serverPc = s.serverPc := by
  unfold interrupt at h
  dsimp only at h
  split at h
  case h_5 => cases h
  all_goals
    cases h
    exact ⟨trivial, rfl⟩

omit [DecidableEq κ] in
/-- Nothing is asked of a silent step. -/
theorem Event.Silent.right_iff {l : List (Event κ)} {s s' : State κ} {e : Event κ}
    (he : e.Silent) : e.Right queueName l s s' ↔ e.Harmless l s := by
  cases e with
  | handles k m id => exact he.elim
  | faults k m => exact he.elim
  | _ => exact Iff.rfl

/-- **Logging out**: after any run whose steps were all harmless, nothing has been read past the
table, and as long as the server runs its descriptor for an accepted client is open until this
client's logout and not after it. Whatever step comes next does what the server should if and
only if it is harmless, too.
SOURCE: cw06/zad2/server.c:58-110, cw06/zad2/client.c:35-69 -/
theorem logout_right_iff (hinj : Function.Injective queueName) {l : List (Event κ)} {s : State κ}
    (h : (harmless queueName).Reachable (l, s)) :
    (∀ k msg, Event.faults k msg ∉ l) ∧
    (s.serverPc ≠ .exited → ∀ k id, Accepted l k id → ∃ d,
      s.server.clientsQueueIDS[id]? = some d ∧
      (s.server.descriptors d = some (.queue (queueName k)) ↔ ¬ LoggedOut l k)) ∧
    ∀ e s', (program queueName).system.step s e s' →
      (e.Right queueName l s s' ↔ e.Harmless l s) := by
  have hinv := inv_harmless hinj h
  refine ⟨hinv.noFault, ?_, ?_⟩
  · intro hruns k id hid
    have hlt : id < maxClients := (hinv.accepted k id hid).trans_le hinv.counter
    obtain ⟨d, hentry⟩ : ∃ d, s.server.clientsQueueIDS[id]? = some d :=
      ⟨_, Vector.getElem?_eq_getElem hlt⟩
    exact ⟨d, hentry, hinv.isOpen hruns k id d hid hentry⟩
  · rintro e s' ⟨c, hstep⟩
    cases c with
    | server fd time => exact (hinv.serverMain hinj hstep).1
    | client k cmd word => exact (clientMain_event hstep).1.silent.right_iff
    | interrupt k => exact (interrupt_event hstep).1.silent.right_iff

/-- The name of the queue of the process with the one-digit number `k`. -/
def processQueue (k : Fin 5) : SysVMessages.Text :=
  "/queue".toList ++ [Nat.digitChar k]

/-- Every process has a queue of its own. -/
theorem processQueue_injective : Function.Injective processQueue := by
  unfold Function.Injective
  decide

/-- A client's `msg` before anything has been put into it. -/
def someMsg : Msgbuf :=
  { mtype := .clientRequest, clientID := 0, mtext := [] }

/-- Client `k` starts and asks, and the server takes the request and handles it, where `fd` is
the descriptor that is not open. -/
def connects (k : Fin 5) (fd : ℤ) : List (Choice (Fin 5)) :=
  [.client k [] [], .client k [] [], .server fd [], .server fd []]

/-- A client is interrupted before it has asked, and the server takes its logout. -/
def early : List (Event (Fin 5)) × State (Fin 5) :=
  ((program processQueue).exec (startState someMsg)
    [.client 0 [] [], .interrupt 0, .client 0 [] [], .server 4 []]).get (by decide +kernel)

/-- The server handles the logout, which closes its standard input. -/
def closed : List (Event (Fin 5)) × State (Fin 5) :=
  ((program processQueue).exec early.2 [.server 4 []]).get (by decide +kernel)

/-- Another client asks, and the server takes its request. -/
def late : List (Event (Fin 5)) × State (Fin 5) :=
  ((program processQueue).exec closed.2 ((connects 1 0).take 3)).get (by decide +kernel)

/-- The client is accepted; the descriptor `0` is not open. -/
def opened : List (Event (Fin 5)) × State (Fin 5) :=
  ((program processQueue).exec late.2 [.server 0 []]).get (by decide +kernel)

instance (e : Event κ) : Decidable e.Silent :=
  match e with
  | .handles _ _ _ | .faults _ _ => .isFalse id
  | .opens _ | .sends _ _ | .receives _ _ | .rejects _ | .interrupted _ | .exits _
  | .takes _ _ | .stops _ _ => .isTrue trivial

omit [DecidableEq κ] in
/-- A silent event does no harm. -/
theorem Event.Silent.harmless {e : Event κ} (he : e.Silent) (l : List (Event κ)) (s : State κ) :
    e.Harmless l s := by
  cases e with
  | handles k m id => exact he.elim
  | faults k m => exact he.elim
  | _ => trivial

/-- Silent steps are harmless. -/
theorem harmless_silent {s s' : State κ} {l : List (Event κ)} (m : List (Event κ))
    (hrun : (program queueName).system.Run s l s') (hsilent : ∀ e ∈ l, e.Silent) :
    (harmless queueName).Run (m, s) l (m ++ l, s') := by
  apply hrun.guarded
  intro p a q t hsplit _
  exact (hsilent a (by simp [hsplit])).harmless _ _

/-- A step that is harmless. -/
theorem harmless_step {s s' : State κ} {e : Event κ} (m : List (Event κ))
    (hrun : (program queueName).system.Run s [e] s') (he : e.Harmless m s) :
    (harmless queueName).Run (m, s) [e] (m ++ [e], s') :=
  System.Run.single ⟨hrun.step, rfl, he⟩

/-- **The first logout is harmless**: nobody has been accepted. The client accepted after it
gets the descriptor `0`. -/
theorem logout_right_input_reused :
    ∃ d, opened.2.server.clientsQueueIDS[0]? = some d ∧
      opened.2.server.descriptors d = some (.queue (processQueue 1)) := by
  have hearly : early.1 = [.opens 0, .interrupted 0, .sends 0 ⟨.clientLogout, 0, []⟩,
      .takes 0 ⟨.clientLogout, 0, []⟩] := by decide +kernel
  have hclosed : closed.1 = [.handles 0 ⟨.clientLogout, 0, []⟩ none] := by decide +kernel
  have hopened : opened.1 = [.handles 1 ⟨.clientRequest, 0, processQueue 1⟩ (some 0)] := by
    decide +kernel
  have hnobody : ∀ k id, ¬ Accepted early.1 k id := by
    rw [hearly]
    simp [Accepted]
  have hlogout : HarmlessLogout early.1 0 early.2.server := by
    refine ⟨by decide +kernel, ?_, ?_⟩
    · exact fun id _ hid => absurd hid (hnobody 0 id)
    · exact fun _ k id hid => absurd hid (hnobody k id)
  have hrun₁ : (program processQueue).system.Run (startState someMsg) early.1 early.2 := by
    unfold early
    exact Machine.exec_run_get _
  have hrun₂ : (program processQueue).system.Run early.2 closed.1 closed.2 := by
    unfold closed
    exact Machine.exec_run_get _
  have hrun₃ : (program processQueue).system.Run closed.2 late.1 late.2 := by
    unfold late
    exact Machine.exec_run_get _
  have hrun₄ : (program processQueue).system.Run late.2 opened.1 opened.2 := by
    unfold opened
    exact Machine.exec_run_get _
  rw [hclosed] at hrun₂
  rw [hopened] at hrun₄
  have hsilent₁ : ∀ e ∈ early.1, e.Silent := by decide +kernel
  have hsilent₃ : ∀ e ∈ late.1, e.Silent := by decide +kernel
  have h₁ := harmless_silent [] hrun₁ hsilent₁
  have h₂ := harmless_step early.1 hrun₂ ⟨by simp, fun _ => hlogout⟩
  have h₃ := harmless_silent (early.1 ++ closed.1) hrun₃ hsilent₃
  have h₄ := harmless_step (early.1 ++ closed.1 ++ late.1) hrun₄
    ⟨fun _ _ => by decide +kernel, by simp⟩
  rw [hclosed] at h₃ h₄
  obtain ⟨-, hopen, -⟩ := logout_right_iff processQueue_injective
    ⟨([], startState someMsg), _, ⟨rfl, start_startState processQueue someMsg⟩,
      ((h₁.append h₂).append h₃).append h₄⟩
  obtain ⟨d, hentry, hiff⟩ := hopen (by decide +kernel) 1 0 (accepted_concat.mpr (.inr ⟨_, rfl⟩))
  refine ⟨d, hentry, hiff.mpr ?_⟩
  rintro ⟨msg, id, htype, hmem⟩
  simp only [List.mem_append, List.mem_singleton] at hmem
  rcases hmem with ((hmem | hmem) | hmem) | hmem
  · exact hsilent₁ _ hmem
  · cases hmem
  · exact hsilent₃ _ hmem
  · cases hmem
    cases htype

/-- Client `k` sends its logout, and the server takes it and handles it. -/
def leaves (k : Fin 5) : List (Choice (Fin 5)) :=
  [.client k [] [], .server 9 [], .server 9 []]

/-- A client is accepted, reads the answer, is interrupted and logs out. -/
def acceptedLeaves : List (Event (Fin 5)) × State (Fin 5) :=
  ((program processQueue).exec (startState someMsg)
    (connects 0 4 ++ [.client 0 [] [], .interrupt 0] ++ leaves 0)).get (by decide +kernel)

/-- Four clients are accepted; the fifth is not, reads that, and logs out. -/
def deniedLeaves : List (Event (Fin 5)) × State (Fin 5) :=
  ((program processQueue).exec (startState someMsg)
    (connects 0 4 ++ connects 1 5 ++ connects 2 6 ++ connects 3 7 ++ connects 4 8 ++
      [.client 4 [] []] ++ leaves 4)).get (by decide +kernel)

/-- **The logout of the only client accepted** leaves its descriptor `4` open and closes the
server's standard input; **that of a fifth client**, which was denied, reads past the table. -/
theorem logout_wrong :
    (∃ l s, (program processQueue).system.Run (startState someMsg) l s ∧
      Accepted l 0 0 ∧ LoggedOut l 0 ∧ s.server.clientsQueueIDS[0]? = some 4 ∧
      s.server.descriptors 4 = some (.queue (processQueue 0)) ∧ s.server.descriptors 0 = none) ∧
    ∃ l s, (program processQueue).system.Run (startState someMsg) l s ∧
      Event.receives 4 ⟨.serverDenies, 0, processQueue 4⟩ ∈ l ∧
      Event.faults 4 ⟨.clientLogout, 0, []⟩ ∈ l := by
  constructor
  · refine ⟨acceptedLeaves.1, acceptedLeaves.2, ?_, ?_, ?_, ?_, ?_, ?_⟩
    · unfold acceptedLeaves
      exact Machine.exec_run_get _
    · exact ⟨⟨.clientRequest, 0, processQueue 0⟩, by decide +kernel⟩
    · exact ⟨⟨.clientLogout, 0, []⟩, none, rfl, by decide +kernel⟩
    · decide +kernel
    · decide +kernel
    · decide +kernel
  · refine ⟨deniedLeaves.1, deniedLeaves.2, ?_, ?_, ?_⟩
    · unfold deniedLeaves
      exact Machine.exec_run_get _
    · decide +kernel
    · decide +kernel

end SystemyOperacyjne.PosixMessages
