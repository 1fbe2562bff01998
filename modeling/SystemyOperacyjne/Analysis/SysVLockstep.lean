import SystemyOperacyjne.Model.SysVMessages

/-!
# One message at a time

A client of `cw06/zad1` is in lockstep with the server: what it has sent and not yet heard
about is one message, either with the server or, as the answer, in its own queue. `Stage` says
this for every program point of a client, together with what the server's table must hold for
the client's id to lead back to its queue. The table only grows, so that one client's stage is
not touched by what the server does for another.
-/

set_option autoImplicit false

namespace SystemyOperacyjne.SysVMessages

open Library

variable {κ : Type}

/-- The entry `i` of the table is in use, and holds the queue `queueID`. -/
def Server.Lists (server : Server) (i : ℕ) (queueID : ℤ) : Prop :=
  i < server.clientsCounter ∧ server.clientsQueueIDS[i]? = some queueID

/-- A message of the loop that the client waits for an answer to. -/
def Msgbuf.IsService (m : Msgbuf κ) : Prop :=
  m.mtype = .serviceEcho ∨ m.mtype = .serviceUpper ∨ m.mtype = .serviceTime

/-- `a` is the right answer to the request `r` of the client with the queue `queueID`. -/
def Msgbuf.AnsweredBy (r a : Msgbuf κ) (server : Server) (queueID : ℤ) : Prop :=
  match r.mtype with
  | .clientRequest =>
    a.mtype = .serverDenies ∨ a.mtype = .serverAccept ∧ server.Lists a.clientID queueID
  | .serviceEcho => a.mtype = .serverResponse ∧ a.mtext = r.mtext
  | .serviceUpper => a.mtype = .serverResponse ∧ a.mtext = upperCaseF r.mtext
  | .serviceTime => a.mtype = .serverResponse
  | _ => False

/-- The request `r` is on its way: it is all that the server has from the client, or its
answer is all that is in the client's queue. -/
def OnWay (server : Server) (queueID : ℤ) (r : Msgbuf κ) (requests : List (Msgbuf κ))
    (own : Option (List (Msgbuf κ))) : Prop :=
  requests = [r] ∧ own = some [] ∨
    requests = [] ∧ ∃ a, own = some [a] ∧ r.AnsweredBy a server queueID

/-- The messages of the client carry its process and its queue. -/
def Client.Signs (c : Client κ) (k : κ) (queueID : ℤ) : Prop :=
  c.msg.clientPID = k ∧ c.msg.clientQueueID = queueID

/-- The message the client has sent last. -/
def Client.sent (c : Client κ) : Msgbuf κ :=
  { c.msg.held with clientID := c.clientID }

/-- **Where the messages of a client are**, for every program point: `requests` are those the
server has not dealt with, `own` is the client's queue. -/
def Stage (server : Server) (queueID : ℤ) (k : κ) (c : Client κ) (requests : List (Msgbuf κ))
    (own : Option (List (Msgbuf κ))) : Prop :=
  match c.pc with
  | .start => requests = [] ∧ own = none
  | .request => requests = [] ∧ own = some []
  | .receiveFirst =>
    c.Signs k queueID ∧ c.msg.mtype = .clientRequest ∧ OnWay server queueID c.sent requests own
  | .command =>
    c.Signs k queueID ∧ server.Lists c.clientID queueID ∧ requests = [] ∧ own = some []
  | .receive =>
    c.Signs k queueID ∧ server.Lists c.clientID queueID ∧ c.msg.IsService ∧
      OnWay server queueID c.sent requests own
  | .exit code =>
    own = some [] ∧ (∀ m ∈ requests, m.mtype = .serviceTerm) ∧ requests.length ≤ 1 ∧
      (code = 0 → server.Lists c.clientID queueID)
  | .exited code =>
    own = none ∧ (∀ m ∈ requests, m.mtype = .serviceTerm) ∧ requests.length ≤ 1 ∧
      (code = 0 → server.Lists c.clientID queueID)

/-- The messages the server has not dealt with: the one in its hands, and its queue. -/
def State.pending (s : State κ) : List (Msgbuf κ) :=
  match s.serverPc with
  | .handle msg => msg :: s.serverQueue.getD []
  | _ => s.serverQueue.getD []

/-- Those of client `k`. -/
def State.requests [DecidableEq κ] (s : State κ) (k : κ) : List (Msgbuf κ) :=
  s.pending.filter fun msg => msg.clientPID = k

section Growth

variable {server server' : Server} {queueID : ℤ}

/-- The table of `server'` has all the entries of that of `server`. -/
def Server.Grows (server server' : Server) : Prop :=
  ∀ i queueID, server.Lists i queueID → server'.Lists i queueID

/-- An answer stays one when the server learns of more clients. -/
theorem Msgbuf.AnsweredBy.mono {r a : Msgbuf κ} (h : r.AnsweredBy a server queueID)
    (hgrows : server.Grows server') : r.AnsweredBy a server' queueID := by
  unfold Msgbuf.AnsweredBy at h ⊢
  cases hr : r.mtype
  all_goals simp only [hr] at h ⊢
  case clientRequest => exact h.imp_right fun ⟨ha, hid⟩ => ⟨ha, hgrows _ _ hid⟩
  all_goals exact h

/-- What is on its way stays so when the server learns of more clients. -/
theorem OnWay.mono {r : Msgbuf κ} {requests : List (Msgbuf κ)} {own : Option (List (Msgbuf κ))}
    (h : OnWay server queueID r requests own) (hgrows : server.Grows server') :
    OnWay server' queueID r requests own := by
  apply h.imp_right
  rintro ⟨hrequests, a, hown, ha⟩
  exact ⟨hrequests, a, hown, ha.mono hgrows⟩

/-- **A client's stage survives what the server does for others.** -/
theorem Stage.mono {k : κ} {c : Client κ} {requests : List (Msgbuf κ)}
    {own : Option (List (Msgbuf κ))} (h : Stage server queueID k c requests own)
    (hgrows : server.Grows server') : Stage server' queueID k c requests own := by
  unfold Stage at h ⊢
  cases hpc : c.pc
  all_goals simp only [hpc] at h ⊢
  case start | request => exact h
  case receiveFirst =>
    obtain ⟨hsigns, htype, hway⟩ := h
    exact ⟨hsigns, htype, hway.mono hgrows⟩
  case command =>
    obtain ⟨hsigns, hid, hempty⟩ := h
    exact ⟨hsigns, hgrows _ _ hid, hempty⟩
  case receive =>
    obtain ⟨hsigns, hid, hservice, hway⟩ := h
    exact ⟨hsigns, hgrows _ _ hid, hservice, hway.mono hgrows⟩
  case exit | exited =>
    obtain ⟨hown, hrequests, hone, hcode⟩ := h
    exact ⟨hown, hrequests, hone, fun h0 => hgrows _ _ (hcode h0)⟩

end Growth

/-! ## What the server does with a request -/

section Serve

variable {server : Server} {queues : Queues κ} {m : Msgbuf κ}

/-- A message sent to an empty queue is alone there. -/
theorem msgsnd_empty {id : ℤ} (h : queues id = some []) (a : Msgbuf κ) :
    msgsnd queues id a = Function.update queues id (some [a]) := by
  simp [msgsnd, h]

/-- **A `ClientRequest` is answered**: the client is refused, or the first free entry of the
table is its own from now on. -/
theorem msgRcv_request (time : Text) (hm : m.mtype = .clientRequest)
    (hcounter : server.clientsCounter ≤ maxClients) (hq : queues m.clientQueueID = some []) :
    ∃ server' a, server.msgRcv time m queues =
        .ok (server', Function.update queues m.clientQueueID (some [a])) ∧
      server.Grows server' ∧ server'.clientsCounter ≤ maxClients ∧
      m.AnsweredBy a server' m.clientQueueID := by
  unfold Server.msgRcv
  rw [hm]
  dsimp only
  split
  · next hlt =>
    rw [store_of_lt _ _ hlt, msgsnd_empty hq]
    refine ⟨_, _, rfl, ?_, hlt, ?_⟩
    · intro i id ⟨hi, hlists⟩
      refine ⟨Nat.lt_succ_of_lt hi, ?_⟩
      rw [Vector.getElem?_set_ne _ (by omega)]
      exact hlists
    · simp [Msgbuf.AnsweredBy, hm, Server.Lists, hlt]
  · rw [msgsnd_empty hq]
    refine ⟨_, _, rfl, fun _ _ h => h, hcounter, ?_⟩
    simp [Msgbuf.AnsweredBy, hm]

/-- **A service is answered** on the queue that the client's id leads to. -/
theorem msgRcv_service {queueID : ℤ} (time : Text) (hm : m.IsService)
    (hid : server.Lists m.clientID queueID) (hq : queues queueID = some []) :
    ∃ a, server.msgRcv time m queues =
        .ok (server, Function.update queues queueID (some [a])) ∧
      m.AnsweredBy a server queueID := by
  have hload : load Stop.undefined server.clientsQueueIDS m.clientID = .ok queueID :=
    (load_eq_ok_iff _ _).mpr hid.2
  have hrespond : ∀ text, respond m text server queues = .ok (server,
      Function.update queues queueID
        (some [{ m with mtype := .serverResponse, mtext := text }])) := by
    intro text
    unfold respond
    dsimp only
    rw [hload, ← msgsnd_empty hq]
    rfl
  rcases hm with hm | hm | hm
  all_goals
    unfold Server.msgRcv
    rw [hm]
    refine ⟨_, hrespond _, ?_⟩
    simp [Msgbuf.AnsweredBy, hm]

end Serve

/-! ## The invariant -/

variable [DecidableEq κ] {queueID : κ → ℤ}

/-- **The lockstep invariant**, while the server runs. -/
structure Inv (queueID : κ → ℤ) (s : State κ) : Prop where
  running : s.serverPc = .receive ∨ ∃ msg, s.serverPc = .handle msg
  queue : s.serverQueue.isSome
  counter : s.server.clientsCounter ≤ maxClients
  stage : ∀ k, Stage s.server (queueID k) k (s.client k) (s.requests k) (s.clientQueue (queueID k))

/-- It holds in the beginning. -/
theorem inv_start {s : State κ} (h : Start queueID s) : Inv queueID s := by
  constructor
  · exact .inl h.serverPc
  · simp [h.serverQueue]
  · simp [h.server]
  · intro k
    simp [Stage, State.requests, State.pending, h.client k, h.clientQueue k, h.serverPc,
      h.serverQueue]

/-- **One client's step**: the invariant is about that client alone. -/
theorem Inv.client {s s' : State κ} (h : Inv queueID s) (k : κ) (hpc : s'.serverPc = s.serverPc)
    (hserver : s'.server = s.server) (hqueue : s'.serverQueue.isSome)
    (hclient : ∀ k', k' ≠ k → s'.client k' = s.client k')
    (hrequests : ∀ k', k' ≠ k → s'.requests k' = s.requests k')
    (hown : ∀ k', k' ≠ k → s'.clientQueue (queueID k') = s.clientQueue (queueID k'))
    (hk : Stage s.server (queueID k) k (s'.client k) (s'.requests k)
      (s'.clientQueue (queueID k))) : Inv queueID s' := by
  constructor
  · rw [hpc]
    exact h.running
  · exact hqueue
  · rw [hserver]
    exact h.counter
  · intro k'
    rw [hserver]
    by_cases heq : k' = k
    · rw [heq]
      exact hk
    · rw [hclient k' heq, hrequests k' heq, hown k' heq]
      exact h.stage k'

/-- What a client sends is behind its other messages. -/
theorem requests_sent {s s' : State κ} {q : List (Msgbuf κ)} {m : Msgbuf κ}
    (hpc : s'.serverPc = s.serverPc) (hq : s.serverQueue = some q)
    (hq' : s'.serverQueue = some (q ++ [m])) (k : κ) :
    s'.requests k = if m.clientPID = k then s.requests k ++ [m] else s.requests k := by
  have hpending : s'.pending = s.pending ++ [m] := by
    unfold State.pending
    rw [hpc, hq, hq']
    cases s.serverPc <;> rfl
  rw [State.requests, hpending, List.filter_append]
  split
  · next h => simp [State.requests, h]
  · next h => simp [State.requests, h]

/-- **Sending**: client `k` puts one message behind its others. -/
theorem Inv.send {s : State κ} (h : Inv queueID s) {k : κ} {m : Msgbuf κ} {next : ClientPc}
    (hm : m.clientPID = k)
    (hk : Stage s.server (queueID k) k { s.client k with pc := next, msg := m }
      (s.requests k ++ [{ m.held with clientID := (s.client k).clientID }])
      (s.clientQueue (queueID k))) :
    Inv queueID (msgSnd k m next s).2 := by
  obtain ⟨q, hq⟩ := Option.isSome_iff_exists.mp h.queue
  have hpc : (msgSnd k m next s).2.serverPc = s.serverPc := by
    simp [msgSnd, hq, State.setClient]
  have hqueue : (msgSnd k m next s).2.serverQueue =
      some (q ++ [{ m.held with clientID := (s.client k).clientID }]) := by
    simp [msgSnd, hq]
  have hsent := requests_sent hpc hq hqueue
  apply h.client k
  · simp [msgSnd, hq, State.setClient]
  · simp [msgSnd, hq, State.setClient]
  · simp [msgSnd, hq]
  · intro k' hne
    simp [msgSnd, hq, State.setClient, hne]
  · intro k' hne
    rw [hsent, if_neg]
    rw [Msgbuf.held_clientPID, hm]
    exact hne.symm
  · intro k' _
    simp [msgSnd, hq, State.setClient]
  · rw [hsent, if_pos (show m.held.clientPID = k from hm)]
    simpa [msgSnd, hq, State.setClient] using hk

/-- **A client's own queue**: client `k` goes on as `c`, and its queue is `own` then. -/
theorem Inv.own {s : State κ} (h : Inv queueID s) (hinj : Function.Injective queueID) {k : κ}
    {c : Client κ} {own : Option (List (Msgbuf κ))}
    (hk : Stage s.server (queueID k) k c (s.requests k) own) :
    Inv queueID { s.setClient k c with
      clientQueue := Function.update s.clientQueue (queueID k) own } := by
  apply h.client k
  · rfl
  · rfl
  · exact h.queue
  · intro k' hne
    simp [State.setClient, hne]
  · exact fun _ _ => rfl
  · intro k' hne
    simp [hinj.ne hne]
  · show Stage s.server (queueID k) k (Function.update s.client k c k) (s.requests k)
      (Function.update s.clientQueue (queueID k) own (queueID k))
    rw [Function.update_self, Function.update_self]
    exact hk

/-- **Receiving**: the only message in the client's queue is the right answer. -/
theorem Inv.receive {s s' : State κ} (h : Inv queueID s) (hinj : Function.Injective queueID)
    {k : κ} {e : Event κ} (hpc : (s.client k).pc = .receiveFirst ∨ (s.client k).pc = .receive)
    (hstep : msgRcv (queueID k) k s = some (e, s')) : Inv queueID s' := by
  have hstage := h.stage k
  unfold msgRcv at hstep
  unfold Stage at hstage
  rcases hpc with hpc | hpc
  all_goals simp only [hpc] at hstage
  · obtain ⟨hsigns, htype, ⟨-, hown⟩ | ⟨hrequests, a, hown, ha⟩⟩ := hstage
    · simp [hown] at hstep
    · have hr : (s.client k).sent.mtype = .clientRequest := htype
      simp only [Msgbuf.AnsweredBy, hr] at ha
      rcases ha with ha | ⟨ha, hid⟩
      · simp only [hown, ha, Option.some.injEq, Prod.mk.injEq] at hstep
        rw [← hstep.2]
        apply h.own hinj
        simp [Stage, hrequests]
      · simp only [hown, ha, Option.some.injEq, Prod.mk.injEq] at hstep
        rw [← hstep.2]
        apply h.own hinj
        exact ⟨hsigns, hid, hrequests, rfl⟩
  · obtain ⟨hsigns, hid, hservice, ⟨-, hown⟩ | ⟨hrequests, a, hown, ha⟩⟩ := hstage
    · simp [hown] at hstep
    · have htype : a.mtype = .serverResponse := by
        have hr : (s.client k).sent.mtype = (s.client k).msg.mtype := rfl
        unfold Msgbuf.AnsweredBy at ha
        rcases hservice with hm | hm | hm <;>
          · rw [hr, hm] at ha
            simp only at ha
            simp [ha]
      simp only [hown, htype, Option.some.injEq, Prod.mk.injEq] at hstep
      rw [← hstep.2]
      apply h.own hinj
      exact ⟨hsigns, hid, hrequests, rfl⟩

/-- **A command**: a service is on its way, or the client says good-bye. -/
theorem Inv.command {s : State κ} (h : Inv queueID s) {k : κ} (cmd word : Text)
    (hpc : (s.client k).pc = .command) : Inv queueID (SysVMessages.command k cmd word s).2 := by
  have hstage := h.stage k
  simp only [Stage, hpc] at hstage
  obtain ⟨hsigns, hid, hrequests, hown⟩ := hstage
  have service : ∀ m : Msgbuf κ, m.clientPID = k → m.clientQueueID = queueID k → m.IsService →
      Inv queueID (msgSnd k m .receive s).2 := by
    intro m hk hqueue hservice
    apply h.send hk
    exact ⟨⟨hk, hqueue⟩, hid, hservice, .inl ⟨by rw [hrequests]; rfl, hown⟩⟩
  unfold SysVMessages.command
  dsimp only
  split
  · exact service _ hsigns.1 hsigns.2 (.inl rfl)
  split
  · exact service _ hsigns.1 hsigns.2 (.inr (.inl rfl))
  split
  · exact service _ hsigns.1 hsigns.2 (.inr (.inr rfl))
  split
  · apply h.send
    · exact hsigns.1
    · simp [Stage, hrequests, hown, hid]
  · exact h

/-- **A client's step keeps the lockstep.** The cases are the program points. -/
theorem Inv.clientMain {s s' : State κ} (h : Inv queueID s) (hinj : Function.Injective queueID)
    {k : κ} {cmd word : Text} {e : Event κ}
    (hstep : clientMain (queueID k) k cmd word s = some (e, s')) : Inv queueID s' := by
  have hstage := h.stage k
  unfold SysVMessages.clientMain at hstep
  dsimp only at hstep
  unfold Stage at hstage
  cases hpc : (s.client k).pc
  all_goals simp only [hpc] at hstep hstage
  case start =>
    obtain ⟨q, hq⟩ := Option.isSome_iff_exists.mp h.queue
    simp only [hq, Option.some.injEq, Prod.mk.injEq] at hstep
    rw [← hstep.2]
    apply h.own hinj
    simp [Stage, hstage.1]
  case request =>
    simp only [Option.some.injEq] at hstep
    have hs' : s' = (msgSnd k _ .receiveFirst s).2 := (congrArg Prod.snd hstep).symm
    rw [hs']
    apply h.send
    · rfl
    · exact ⟨⟨rfl, rfl⟩, rfl, .inl ⟨by rw [hstage.1]; rfl, hstage.2⟩⟩
  case receiveFirst => exact h.receive hinj (.inl hpc) hstep
  case receive => exact h.receive hinj (.inr hpc) hstep
  case command =>
    simp only [Option.some.injEq] at hstep
    rw [show s' = (SysVMessages.command k cmd word s).2 from (congrArg Prod.snd hstep).symm]
    exact h.command cmd word hpc
  case exit code =>
    simp only [Option.some.injEq, Prod.mk.injEq] at hstep
    rw [← hstep.2]
    apply h.own hinj
    exact ⟨rfl, hstage.2⟩
  case exited code => cases hstep

/-- The message in the server's hands is the first of its client's. -/
theorem requests_handle {s : State κ} {m : Msgbuf κ} (hpc : s.serverPc = .handle m) (k : κ) :
    s.requests k =
      (if m.clientPID = k then [m] else []) ++
        (s.serverQueue.getD []).filter fun msg => msg.clientPID = k := by
  unfold State.requests State.pending
  rw [hpc]
  by_cases h : m.clientPID = k <;> simp [h]

/-- **Answering**: the client whose request is in the server's hands gets its answer. -/
theorem Inv.answer {s : State κ} (h : Inv queueID s) (hinj : Function.Injective queueID)
    {m a : Msgbuf κ} {k : κ} {server' : Server} (hpc : s.serverPc = .handle m)
    (hk : m.clientPID = k) (hgrows : s.server.Grows server')
    (hcounter : server'.clientsCounter ≤ maxClients)
    (hstage : Stage server' (queueID k) k (s.client k)
      ((s.serverQueue.getD []).filter fun msg => msg.clientPID = k) (some [a])) :
    Inv queueID { s with
      serverPc := .receive
      server := server'
      clientQueue := Function.update s.clientQueue (queueID k) (some [a]) } := by
  constructor
  · exact .inl rfl
  · exact h.queue
  · exact hcounter
  · intro k'
    by_cases heq : k' = k
    · rw [heq]
      dsimp only
      rw [Function.update_self]
      exact hstage
    · have hold := (h.stage k').mono hgrows
      rw [requests_handle hpc k', if_neg (by rw [hk]; exact Ne.symm heq)] at hold
      dsimp only
      rw [Function.update_of_ne (hinj.ne heq)]
      exact hold

/-- **The server answers every request it takes**: it never looks outside its table. -/
theorem Inv.handle {s : State κ} (h : Inv queueID s) (hinj : Function.Injective queueID)
    {m : Msgbuf κ} (hpc : s.serverPc = .handle m) (hterm : m.mtype ≠ .serviceTerm)
    (time : Text) :
    ∃ server' queues', s.server.msgRcv time m s.clientQueue = .ok (server', queues') ∧
      Inv queueID { s with
        serverPc := .receive
        server := server'
        clientQueue := queues' } := by
  have hstage := h.stage m.clientPID
  rw [requests_handle hpc, if_pos rfl] at hstage
  unfold Stage at hstage
  cases hc : (s.client m.clientPID).pc
  all_goals simp only [hc] at hstage
  case start | request => simp at hstage
  case command => simp at hstage
  case exit | exited =>
    have := hstage.2.1 m (by simp)
    exact absurd this hterm
  case receiveFirst =>
    obtain ⟨hsigns, htype, ⟨hrequests, hown⟩ | hnone⟩ := hstage
    · obtain ⟨hm, hrest⟩ := List.cons_eq_cons.mp hrequests
      have hqueue : m.clientQueueID = queueID m.clientPID := (congrArg _ hm).trans hsigns.2
      obtain ⟨server', a, hrcv, hgrows, hcounter, ha⟩ :=
        msgRcv_request time ((congrArg _ hm).trans htype) h.counter (hqueue ▸ hown)
      rw [hqueue] at hrcv ha
      refine ⟨server', _, hrcv, h.answer hinj hpc rfl hgrows hcounter ?_⟩
      simp only [Stage, hc]
      exact ⟨hsigns, htype, .inr ⟨hrest, a, rfl, hm ▸ ha⟩⟩
    · simp at hnone
  case receive =>
    obtain ⟨hsigns, hid, hservice, ⟨hrequests, hown⟩ | hnone⟩ := hstage
    · obtain ⟨hm, hrest⟩ := List.cons_eq_cons.mp hrequests
      have hlists : s.server.Lists m.clientID (queueID m.clientPID) := by
        rw [show m.clientID = (s.client m.clientPID).clientID from congrArg Msgbuf.clientID hm]
        exact hid
      have hm' : m.IsService := by
        rw [hm]
        exact hservice
      obtain ⟨a, hrcv, ha⟩ := msgRcv_service time hm' hlists hown
      refine ⟨s.server, _, hrcv, h.answer hinj hpc rfl (fun _ _ h => h) h.counter ?_⟩
      simp only [Stage, hc]
      exact ⟨hsigns, hid, hservice, .inr ⟨hrest, a, rfl, hm ▸ ha⟩⟩
    · simp at hnone

/-- **A step of the server keeps the lockstep**, unless it ends the server. -/
theorem Inv.serverMain {s s' : State κ} (h : Inv queueID s) (hinj : Function.Injective queueID)
    {time : Text} {e : Event κ} (hstep : serverMain time s = some (e, s')) :
    s'.serverQueue = none ∨ Inv queueID s' := by
  rcases serverMain_cases hstep with ⟨m, rest, hpc, hq, rfl, rfl⟩ | ⟨m, hpc, hrcv⟩
  · right
    constructor
    · exact .inr ⟨m, rfl⟩
    · rfl
    · exact h.counter
    · intro k
      have hpending : s.requests k =
          State.requests { s with serverPc := .handle m, serverQueue := some rest } k := by
        simp [State.requests, State.pending, hpc, hq]
      have hstage := h.stage k
      rw [hpending] at hstage
      exact hstage
  · by_cases hterm : m.mtype = .serviceTerm
    · have hexit : s.server.msgRcv time m s.clientQueue = .error .exit := by
        simp [Server.msgRcv, hterm]
      rw [hexit] at hrcv
      rcases hrcv with ⟨_, _, hok, -⟩ | ⟨-, -, rfl⟩ | ⟨hfault, -⟩
      · cases hok
      · exact .inl rfl
      · cases hfault
    · obtain ⟨server', queues', hok, hInv⟩ := h.handle hinj hpc hterm time
      rw [hok] at hrcv
      rcases hrcv with ⟨_, _, heq, -, rfl⟩ | ⟨hexit, -⟩ | ⟨hfault, -⟩
      · cases heq
        exact .inr hInv
      · cases hexit
      · cases hfault

/-- A client does not take from the server's queue. -/
theorem msgRcv_serverQueue {s s' : State κ} {id : ℤ} {k : κ} {e : Event κ}
    (h : msgRcv id k s = some (e, s')) : s'.serverQueue = s.serverQueue := by
  unfold msgRcv at h
  dsimp only at h
  split at h
  · split at h <;>
      · cases h
        rfl
  · cases h

/-- A queue that has been removed is not there again. -/
theorem removed_step {s s' : State κ} {c : Choice κ} {e : Event κ}
    (hnone : s.serverQueue = none) (hstep : next queueID s c = some (e, s')) :
    s'.serverQueue = none := by
  have hsnd : ∀ k m next e s', msgSnd k m next s = (e, s') → s'.serverQueue = none := by
    intro k m next e s' heq
    simp only [msgSnd, hnone] at heq
    cases heq
    exact hnone
  cases c with
  | client k cmd word =>
    simp only [next, clientMain] at hstep
    cases hpc : (s.client k).pc
    all_goals simp only [hpc, hnone, Option.some.injEq] at hstep
    case start | exit =>
      cases hstep
      exact hnone
    case request =>
      exact hsnd _ _ _ _ _ hstep
    case receiveFirst | receive => rw [msgRcv_serverQueue hstep, hnone]
    case command =>
      unfold command at hstep
      dsimp only at hstep
      split at hstep
      · exact hsnd _ _ _ _ _ hstep
      split at hstep
      · exact hsnd _ _ _ _ _ hstep
      split at hstep
      · exact hsnd _ _ _ _ _ hstep
      split at hstep
      · exact hsnd _ _ _ _ _ hstep
      · cases hstep
        exact hnone
    case exited => cases hstep
  | server time =>
    rcases serverMain_cases hstep with ⟨m, rest, -, hq, -⟩ | ⟨m, -, hrcv⟩
    · rw [hnone] at hq
      cases hq
    · rcases hrcv with ⟨_, _, -, -, rfl⟩ | ⟨-, -, rfl⟩ | ⟨-, -, rfl⟩
      · exact hnone
      · rfl
      · exact hnone

/-- **The lockstep invariant holds as long as the server runs.** -/
theorem lockstep_invariant (hinj : Function.Injective queueID) :
    (program queueID).system.Invariant fun s => s.serverQueue = none ∨ Inv queueID s where
  init s h := .inr (inv_start h)
  step s e s' h := by
    rintro ⟨c, hstep⟩
    rcases h with hnone | hI
    · exact .inl (removed_step hnone hstep)
    · cases c with
      | client k cmd word => exact .inr (hI.clientMain hinj hstep)
      | server time => exact hI.serverMain hinj hstep

/-! ## The protocol -/

/-- A client that has been accepted: it reads commands, waits for the answer to one, or has
said good-bye. -/
def Client.Accepted (c : Client κ) : Prop :=
  c.pc = .command ∨ c.pc = .receive ∨ c.pc = .exit 0 ∨ c.pc = .exited 0

instance (c : Client κ) : Decidable c.Accepted :=
  inferInstanceAs (Decidable (_ ∨ _))

/-- A client that is about to receive, or in `msg_rcv`. -/
def Client.Receiving (c : Client κ) : Prop :=
  c.pc = .receiveFirst ∨ c.pc = .receive

instance (c : Client κ) : Decidable c.Receiving :=
  inferInstanceAs (Decidable (_ ∨ _))

/-- The messages between client `k` and the server that somebody waits for: the requests that
await an answer and are with the server, and what is in the client's own queue. -/
def State.outstanding (s : State κ) (queueID : κ → ℤ) (k : κ) : List (Msgbuf κ) :=
  (s.requests k).filter (fun m => m.AwaitsAnswer) ++ (s.clientQueue (queueID k)).getD []

/-- An accepted client's id leads back to its queue. -/
theorem Inv.lists {s : State κ} (h : Inv queueID s) {k : κ} (hk : (s.client k).Accepted) :
    s.server.Lists (s.client k).clientID (queueID k) := by
  have hstage := h.stage k
  unfold Stage at hstage
  rcases hk with hpc | hpc | hpc | hpc
  all_goals simp only [hpc] at hstage
  · exact hstage.2.1
  · exact hstage.2.1
  · exact hstage.2.2.2 trivial
  · exact hstage.2.2.2 trivial

omit [DecidableEq κ] in
/-- There is one message on its way, one way or the other. -/
theorem OnWay.length_eq {server : Server} {id : ℤ} {r : Msgbuf κ} {requests : List (Msgbuf κ)}
    {own : Option (List (Msgbuf κ))} (h : OnWay server id r requests own) :
    requests.length + (own.getD []).length = 1 := by
  rcases h with ⟨hrequests, hown⟩ | ⟨hrequests, a, hown, -⟩ <;> simp [hrequests, hown]

/-- **At most one message is outstanding**, and none unless the client receives. -/
theorem Inv.outstanding {s : State κ} (h : Inv queueID s) (k : κ) :
    (s.outstanding queueID k).length ≤ 1 ∧
      (¬ (s.client k).Receiving → s.outstanding queueID k = []) := by
  have hstage := h.stage k
  have hle : (s.outstanding queueID k).length ≤
      (s.requests k).length + ((s.clientQueue (queueID k)).getD []).length := by
    rw [State.outstanding, List.length_append]
    exact Nat.add_le_add_right (List.length_filter_le _ _) _
  unfold Stage at hstage
  cases hpc : (s.client k).pc
  all_goals simp only [hpc] at hstage
  case receiveFirst =>
    have hone := hstage.2.2.length_eq
    exact ⟨by omega, fun hnot => absurd (.inl hpc) hnot⟩
  case receive =>
    have hone := hstage.2.2.2.length_eq
    exact ⟨by omega, fun hnot => absurd (.inr hpc) hnot⟩
  case start | request => simp [State.outstanding, hstage]
  case command => simp [State.outstanding, hstage]
  case exit | exited =>
    have hnone : (s.requests k).filter (fun m => m.AwaitsAnswer) = [] := by
      apply List.filter_eq_nil_iff.mpr
      intro m hm
      simp [Msgbuf.AwaitsAnswer, hstage.2.1 m hm]
    simp [State.outstanding, hnone, hstage.1]

/-- **A service is answered as it should be**: the text of the client's last message comes back,
after `echo` as it was and after `upper` in capitals. -/
theorem Inv.response {s : State κ} (h : Inv queueID s) {k : κ} {a : Msgbuf κ}
    {rest : List (Msgbuf κ)} (hpc : (s.client k).pc = .receive)
    (hown : s.clientQueue (queueID k) = some (a :: rest)) :
    (s.client k).sent.AnsweredBy a s.server (queueID k) := by
  have hstage := h.stage k
  simp only [Stage, hpc] at hstage
  obtain ⟨-, -, -, ⟨-, hempty⟩ | ⟨-, a', hone, ha⟩⟩ := hstage
  · simp [hown] at hempty
  · simp only [hown, Option.some.injEq, List.cons.injEq] at hone
    rw [hone.1]
    exact ha

/-! ## Words that have room -/

/-- The word that a client waits for the answer to is in its array, with its `0`. -/
def Client.Holds (c : Client κ) : Prop :=
  c.pc = .receive → c.msg.mtype = .serviceEcho ∨ c.msg.mtype = .serviceUpper →
    c.msg.mtext.length < textSize

/-- A client sends, or finds no server. -/
theorem msgSnd_client (k : κ) (m : Msgbuf κ) (next : ClientPc) (s : State κ) :
    ∃ pc, (pc = next ∨ pc = .exit 1) ∧ (msgSnd k m next s).2.client =
      Function.update s.client k { s.client k with pc := pc, msg := m } := by
  unfold msgSnd
  dsimp only
  split
  · exact ⟨next, .inl rfl, rfl⟩
  · exact ⟨.exit 1, .inr rfl, rfl⟩

/-- What a client sends from its loop is in its array. -/
theorem holds_msgSnd {k : κ} {m : Msgbuf κ} {next : ClientPc} {s : State κ}
    (hm : next = .receive → m.mtype = .serviceEcho ∨ m.mtype = .serviceUpper →
      m.mtext.length < textSize) :
    ∃ c : Client κ, (msgSnd k m next s).2.client = Function.update s.client k c ∧ c.Holds := by
  obtain ⟨pc, hpc, hclient⟩ := msgSnd_client k m next s
  refine ⟨_, hclient, ?_⟩
  intro hreceive
  rcases hpc with rfl | rfl
  · exact hm hreceive
  · cases hreceive

/-- A client that has received does not wait. -/
theorem holds_msgRcv {id : ℤ} {k : κ} {s s' : State κ} {e : Event κ}
    (h : msgRcv id k s = some (e, s')) :
    ∃ c : Client κ, s'.client = Function.update s.client k c ∧ c.Holds := by
  unfold msgRcv at h
  dsimp only at h
  split at h
  · split at h
    all_goals
      cases h
      refine ⟨_, rfl, ?_⟩
      intro hreceive
      cases hreceive
  · cases h

/-- **A client's step**, when the words that it reads have room. The cases are the program
points. -/
theorem holds_clientMain {id : ℤ} {k : κ} {cmd word : Text} {s s' : State κ} {e : Event κ}
    (hk : (s.client k).Holds) (hfits : (Choice.client k cmd word).Fits s)
    (h : clientMain id k cmd word s = some (e, s')) :
    ∃ c : Client κ, s'.client = Function.update s.client k c ∧ c.Holds := by
  unfold clientMain at h
  dsimp only at h
  split at h
  case h_1 =>
    split at h
    all_goals
      cases h
      refine ⟨_, rfl, ?_⟩
      intro hreceive
      cases hreceive
  case h_2 =>
    rw [show s' = _ from (congrArg Prod.snd (Option.some.inj h)).symm]
    exact holds_msgSnd fun hnext => by cases hnext
  case h_3 | h_4 => exact holds_msgRcv h
  case h_5 hpc =>
    have hword := (hfits hpc).2
    rw [show s' = _ from (congrArg Prod.snd (Option.some.inj h)).symm]
    unfold command
    dsimp only
    split_ifs with hecho hupper htime hterm
    · exact holds_msgSnd fun _ _ => hword (.inl hecho)
    · exact holds_msgSnd fun _ _ => hword (.inr hupper)
    · exact holds_msgSnd fun _ htype => by simp at htype
    · exact holds_msgSnd fun hnext => by cases hnext
    · exact ⟨s.client k, (Function.update_eq_self k s.client).symm, hk⟩
  case h_6 =>
    cases h
    refine ⟨_, rfl, ?_⟩
    intro hreceive
    cases hreceive
  case h_7 => cases h

/-- **The words stay in their arrays** in every run in which those that are read have room. -/
theorem holds_invariant :
    (fitting queueID).system.Invariant fun s => ∀ k, (s.client k).Holds where
  init s h k hreceive := by
    rw [(h.client k).1] at hreceive
    cases hreceive
  step s e s' h := by
    rintro ⟨choice, hstep⟩ k'
    obtain ⟨hfits, hnext⟩ := Machine.restricted_next_iff.mp hstep
    cases choice with
    | client k cmd word =>
      obtain ⟨c, hclient, hc⟩ := holds_clientMain (h k) hfits hnext
      rw [hclient]
      by_cases heq : k' = k
      · rw [heq, Function.update_self]
        exact hc
      · rw [Function.update_of_ne heq]
        exact h k'
    | server time =>
      rcases serverMain_cases hnext with ⟨m, rest, -, -, -, rfl⟩ | ⟨m, -, hrcv⟩
      · exact h k'
      · rcases hrcv with ⟨_, _, -, -, rfl⟩ | ⟨-, -, rfl⟩ | ⟨-, -, rfl⟩ <;> exact h k'

/-- **The request-response protocol**, in every state until the server handles a `ServiceTerm`, of
every run in which the words that the clients read have room in their arrays: accepted clients have
different ids, each of which leads to its client's queue; at most one message between a client and
the server is outstanding, and none unless the client receives; and the answer to `echo` or `upper`
carries the text of the client's last request, all that it has read.
SOURCE: cw06/zad1/server.c:25-84, cw06/zad1/client.c:22-108 -/
theorem request_response (hinj : Function.Injective queueID) {s : State κ}
    (h : (fitting queueID).system.Reachable s) (hruns : s.serverQueue ≠ none) :
    (∀ k, (s.client k).Accepted → (s.client k).clientID < maxClients ∧
      s.server.clientsQueueIDS[(s.client k).clientID]? = some (queueID k)) ∧
    (∀ k k', (s.client k).Accepted → (s.client k').Accepted →
      (s.client k).clientID = (s.client k').clientID → k = k') ∧
    (∀ k, (s.outstanding queueID k).length ≤ 1 ∧
      (¬ (s.client k).Receiving → s.outstanding queueID k = [])) ∧
    ∀ k a rest, (s.client k).pc = .receive → s.clientQueue (queueID k) = some (a :: rest) →
      ((s.client k).msg.mtype = .serviceEcho →
        a.mtype = .serverResponse ∧ a.mtext = (s.client k).msg.mtext) ∧
      ((s.client k).msg.mtype = .serviceUpper →
        a.mtype = .serverResponse ∧ a.mtext = upperCaseF (s.client k).msg.mtext) := by
  have hreach : (program queueID).system.Reachable s := Machine.restricted_reachable h
  have hI := ((lockstep_invariant hinj).reachable hreach).resolve_left hruns
  refine ⟨?_, ?_, hI.outstanding, ?_⟩
  · intro k hk
    obtain ⟨hlt, hlists⟩ := hI.lists hk
    exact ⟨Nat.lt_of_lt_of_le hlt hI.counter, hlists⟩
  · intro k k' hk hk' heq
    -- the entry of their common id holds the queues of both
    have hqueue := (hI.lists hk).2
    rw [heq, (hI.lists hk').2] at hqueue
    exact (hinj (Option.some.inj hqueue)).symm
  · intro k a rest hpc hown
    have ha := hI.response hpc hown
    have hholds := holds_invariant.reachable h k hpc
    have htext : (s.client k).msg.mtype = .serviceEcho ∨ (s.client k).msg.mtype = .serviceUpper →
        (s.client k).sent.mtext = (s.client k).msg.mtext :=
      fun htype => Msgbuf.held_mtext (hholds htype)
    have hsent : (s.client k).sent.mtype = (s.client k).msg.mtype := rfl
    unfold Msgbuf.AnsweredBy at ha
    constructor
    · intro htype
      rw [hsent, htype, htext (.inl htype)] at ha
      exact ha
    · intro htype
      rw [hsent, htype, htext (.inr htype)] at ha
      exact ha

/-- A client's `msg` before anything has been put into it. -/
def someMsg : Msgbuf ℕ :=
  { mtype := .clientRequest, clientPID := 0, clientID := 0, clientQueueID := 0, mtext := [] }

/-- The queue of client `k` is number `k`. -/
def queueNumber (k : ℕ) : ℤ :=
  k

/-- Every client has a queue of its own. -/
theorem queueNumber_injective : Function.Injective queueNumber :=
  fun _ _ h => Int.ofNat.inj h

/-- Two clients come, and both are accepted. -/
def bothAccepted : List (Choice ℕ) :=
  [.client 0 [] [], .client 1 [] [], .client 0 [] [], .client 1 [] [], .server [], .server [],
    .server [], .server [], .client 0 [] [], .client 1 [] []]

/-- Then the second asks for `upper ab`. -/
def upperSchedule : List (Choice ℕ) :=
  bothAccepted ++ [.client 1 "upper".toList "ab".toList, .server [], .server []]

/-- What has happened then. -/
def upperRun : List (Event ℕ) × State ℕ :=
  ((fitting queueNumber).exec (startState someMsg) upperSchedule).get (by decide +kernel)

/-- They have different ids, and `AB` is on its way to the second. -/
theorem request_response_upper :
    (upperRun.2.client 0).clientID ≠ (upperRun.2.client 1).clientID ∧
    ∃ a, upperRun.2.clientQueue 1 = some [a] ∧ a.mtext = "AB".toList := by
  have hrun : (fitting queueNumber).system.Run (startState someMsg) upperRun.1 upperRun.2 := by
    unfold upperRun
    exact Machine.exec_run_get _
  obtain ⟨-, hids, -, hanswer⟩ := request_response queueNumber_injective
    ⟨_, _, start_startState _ someMsg, hrun⟩ (by decide +kernel)
  constructor
  · intro heq
    have := hids 0 1 (by decide +kernel) (by decide +kernel) heq
    omega
  · obtain ⟨a, ha⟩ : ∃ a, upperRun.2.clientQueue 1 = some [a] := by
      apply Exists.intro
      rfl
    refine ⟨a, ha, ?_⟩
    rw [((hanswer 1 a [] (by decide +kernel) ha).2 (by decide +kernel)).2]
    decide +kernel

/-- A word of 150 letters. -/
def longWord : Text :=
  List.replicate 150 'a'

/-- The second client asks for `echo` and the long word. -/
def echoSchedule : List (Choice ℕ) :=
  bothAccepted ++ [.client 1 "echo".toList longWord, .server [], .server []]

/-- What has happened then. -/
def echoRun : List (Event ℕ) × State ℕ :=
  ((program queueNumber).exec (startState someMsg) echoSchedule).get (by decide +kernel)

/-- **A word that has no room**: its answer carries a hundred letters and not the text of the
request. -/
theorem response_cut_off :
    (program queueNumber).system.Reachable echoRun.2 ∧ echoRun.2.serverQueue ≠ none ∧
    ¬ ∀ k a rest, (echoRun.2.client k).pc = .receive →
      echoRun.2.clientQueue (queueNumber k) = some (a :: rest) →
      ((echoRun.2.client k).msg.mtype = .serviceEcho →
        a.mtype = .serverResponse ∧ a.mtext = (echoRun.2.client k).msg.mtext) := by
  refine ⟨?_, by decide +kernel, ?_⟩
  · unfold echoRun
    exact Machine.exec_reachable (start_startState _ someMsg) _ _
  · intro hanswer
    obtain ⟨a, ha, hlength⟩ : ∃ a, echoRun.2.clientQueue 1 = some [a] ∧ a.mtext.length = 100 := by
      refine ⟨_, rfl, ?_⟩
      decide +kernel
    have htext := (hanswer 1 a [] (by decide +kernel) ha (by decide +kernel)).2
    have hread : (echoRun.2.client 1).msg.mtext.length = 150 := by decide +kernel
    rw [htext, hread] at hlength
    omega

end SystemyOperacyjne.SysVMessages
