import SystemyOperacyjne.Analysis.PosixLogout

/-!
# One message at a time, over POSIX queues

A client of `cw06/zad2` that has not begun to leave is in lockstep with the server, as one of
`cw06/zad1` is: what it has sent and not yet heard about is one message, either with the server or,
as the answer, in its own queue. Its id leads over the table and a descriptor of the server to its
queue. A logout closes the descriptor `0`, whosever it is, so this holds as long as `0` is not the
descriptor of a client when the server deals with a logout, and the table is not full then.
-/

set_option autoImplicit false

namespace SystemyOperacyjne.PosixMessages

open Library
open SysVMessages (Text textSize upperCaseF)

variable {κ : Type}

/-! ## Where a message is -/

/-- The entry `i` of the table is in use, and leads to the queue `name`. -/
def Server.Lists (server : Server) (i : ℕ) (name : Text) : Prop :=
  i < server.clientsCounter ∧ ∃ d, server.clientsQueueIDS[i]? = some d ∧
    server.descriptors d = some (.queue name)

/-- A message of the loop that the client waits for an answer to. -/
def Msgbuf.IsService (m : Msgbuf) : Prop :=
  m.mtype = .serviceEcho ∨ m.mtype = .serviceUpper ∨ m.mtype = .serviceTime

/-- `a` is the right answer to the request `r` of the client with the queue `name`. -/
def Msgbuf.AnsweredBy (r a : Msgbuf) (server : Server) (name : Text) : Prop :=
  match r.mtype with
  | .clientRequest =>
    a.mtype = .serverDenies ∨ a.mtype = .serverAccept ∧ server.Lists a.clientID name
  | .serviceEcho => a.mtype = .serverResponse ∧ a.mtext = r.mtext
  | .serviceUpper => a.mtype = .serverResponse ∧ a.mtext = upperCaseF r.mtext
  | .serviceTime => a.mtype = .serverResponse
  | _ => False

/-- The request `r` is on its way: it is all that the server has from the client, or its
answer is all that is in the client's queue. -/
def OnWay (server : Server) (name : Text) (r : Msgbuf) (messages : List Msgbuf)
    (own : Option (List Msgbuf)) : Prop :=
  messages = [r] ∧ own = some [] ∨ messages = [] ∧ ∃ a, own = some [a] ∧ r.AnsweredBy a server name

/-- The message the client has sent last. The name of its queue always has room. -/
def Client.sent (c : Client) : Msgbuf :=
  { (if c.msg.mtype = .clientRequest then c.msg else c.msg.held) with clientID := c.clientID }

/-- The type of what is sent. -/
@[simp] theorem Client.sent_mtype (c : Client) : c.sent.mtype = c.msg.mtype := by
  unfold Client.sent
  split <;> rfl

/-- What is sent for a request is the message with the client's id. -/
theorem Client.sent_request {c : Client} (h : c.msg.mtype = .clientRequest) :
    c.sent = { c.msg with clientID := c.clientID } := by
  unfold Client.sent
  rw [if_pos h]

/-- What is sent for a service is what the message holds. -/
theorem Client.sent_service {c : Client} (h : c.msg.IsService) :
    c.sent = { c.msg.held with clientID := c.clientID } := by
  have hne : c.msg.mtype ≠ .clientRequest := by
    rcases h with h | h | h <;> simp [h]
  unfold Client.sent
  rw [if_neg hne]

/-- **Where the messages of a client are**, up to `exitHandler`: `messages` are those the server
has not dealt with, `own` is the client's queue. -/
def Stage (server : Server) (name : Text) (c : Client) (messages : List Msgbuf)
    (own : Option (List Msgbuf)) : Prop :=
  match c.pc with
  | .start => messages = [] ∧ own = none
  | .request => messages = [] ∧ own = some []
  | .receiveFirst => c.msg.mtype = .clientRequest ∧ OnWay server name c.sent messages own
  | .command => server.Lists c.clientID name ∧ messages = [] ∧ own = some []
  | .receive =>
    server.Lists c.clientID name ∧ c.msg.IsService ∧ OnWay server name c.sent messages own
  | .logout | .unlink | .exited => True

/-- The client is in `exitHandler`, or at its end. -/
def ClientPc.Leaving (pc : ClientPc) : Prop :=
  pc = .logout ∨ pc = .unlink ∨ pc = .exited

/-! ## What the server does for others -/

section Growth

variable {server server' : Server} {name : Text} {r a : Msgbuf} {messages : List Msgbuf}
  {own : Option (List Msgbuf)} {c : Client}

/-- What leads to a queue in `server` leads to it in `server'`. -/
def Server.Grows (server server' : Server) : Prop :=
  ∀ i name, server.Lists i name → server'.Lists i name

/-- An answer stays one when the server learns of more clients. -/
theorem Msgbuf.AnsweredBy.mono (h : r.AnsweredBy a server name) (hgrows : server.Grows server') :
    r.AnsweredBy a server' name := by
  unfold Msgbuf.AnsweredBy at h ⊢
  cases hr : r.mtype
  all_goals simp only [hr] at h ⊢
  case clientRequest => exact h.imp_right fun ⟨ha, hid⟩ => ⟨ha, hgrows _ _ hid⟩
  all_goals exact h

/-- What is on its way stays so when the server learns of more clients. -/
theorem OnWay.mono (h : OnWay server name r messages own) (hgrows : server.Grows server') :
    OnWay server' name r messages own := by
  apply h.imp_right
  rintro ⟨hmessages, a, hown, ha⟩
  exact ⟨hmessages, a, hown, ha.mono hgrows⟩

/-- **A client's stage survives what the server does for others.** -/
theorem Stage.mono (h : Stage server name c messages own) (hgrows : server.Grows server') :
    Stage server' name c messages own := by
  unfold Stage at h ⊢
  cases hpc : c.pc
  all_goals simp only [hpc] at h ⊢
  case start | request => exact h
  case receiveFirst => exact ⟨h.1, h.2.mono hgrows⟩
  case command => exact ⟨hgrows _ _ h.1, h.2⟩
  case receive => exact ⟨hgrows _ _ h.1, h.2.1, h.2.2.mono hgrows⟩

/-- A client that leaves is in any stage. -/
theorem Stage.of_leaving (h : c.pc.Leaving) : Stage server name c messages own := by
  unfold Stage
  rcases h with hpc | hpc | hpc <;> rw [hpc] <;> exact trivial

/-- **A message that the server has not dealt with** is the one a client waits for, unless it
leaves. -/
theorem Stage.first {m : Msgbuf} (h : Stage server name c (m :: messages) own)
    (hstays : ¬ c.pc.Leaving) :
    (c.pc = .receiveFirst ∧ m.mtype = .clientRequest ∨
        c.pc = .receive ∧ m.IsService ∧ server.Lists m.clientID name) ∧
      m = c.sent ∧ messages = [] ∧ own = some [] := by
  unfold Stage at h
  cases hpc : c.pc
  all_goals simp only [hpc] at h
  case start | request => cases h.1
  case receiveFirst =>
    obtain ⟨htype, ⟨heq, hown⟩ | ⟨hnone, -⟩⟩ := h
    · cases heq
      exact ⟨.inl ⟨rfl, c.sent_mtype.trans htype⟩, rfl, rfl, hown⟩
    · cases hnone
  case command => cases h.2.1
  case receive =>
    obtain ⟨hlists, hservice, ⟨heq, hown⟩ | ⟨hnone, -⟩⟩ := h
    · cases heq
      have hsent : c.sent.IsService := by
        unfold Msgbuf.IsService
        rw [c.sent_mtype]
        exact hservice
      exact ⟨.inr ⟨rfl, hsent, hlists⟩, rfl, rfl, hown⟩
    · cases hnone
  all_goals exact absurd (by simp [ClientPc.Leaving, hpc]) hstays

/-- **The answer arrives.** -/
theorem Stage.answered {m : Msgbuf} (h : Stage server name c (m :: messages) own)
    (hgrows : server.Grows server') (hanswer : m.AnsweredBy a server' name)
    {q : List Msgbuf} (hown : own = some q) :
    Stage server' name c messages (some (q ++ [a])) := by
  by_cases hleaving : c.pc.Leaving
  · exact .of_leaving hleaving
  · obtain ⟨hpc, rfl, rfl, hempty⟩ := h.first hleaving
    rw [hempty] at hown
    cases hown
    have hway : OnWay server' name c.sent [] (some ([] ++ [a])) := .inr ⟨rfl, a, rfl, hanswer⟩
    have hstage := h.mono hgrows
    unfold Stage at hstage ⊢
    rcases hpc with ⟨hpc, -⟩ | ⟨hpc, -⟩
    · simp only [hpc] at hstage ⊢
      exact ⟨hstage.1, hway⟩
    · simp only [hpc] at hstage ⊢
      exact ⟨hstage.1, hstage.2.1, hway⟩

end Growth

/-! ## What the server does with a message -/

section Serve

variable {server server' : Server} {queues queues' : Queues} {m msg : Msgbuf} {name : Text} {fd : ℤ}
  {time : Text}

/-- The table is in order, and `-1` is no descriptor. -/
structure Server.Ready (server : Server) : Prop where
  counter : server.clientsCounter ≤ maxClients
  unused : ∀ i, server.clientsCounter ≤ i → i < maxClients →
    server.clientsQueueIDS[i]? = some 0
  minus : ∀ name, server.descriptors (-1) ≠ some (.queue name)

/-- A message that is answered into the client's own queue. -/
def Msgbuf.Asks (m : Msgbuf) : Prop :=
  m.mtype = .clientRequest ∨ m.IsService

/-- A message that the client with the queue `name` may send: a request has the name, a service the
id that leads to it. -/
structure Server.Takes (server : Server) (m : Msgbuf) (name : Text) : Prop where
  named : m.mtype = .clientRequest → m.mtext = name
  listed : m.IsService → server.Lists m.clientID name

/-- The logout closes no descriptor of a client, and reads nothing behind the table. -/
def Server.Spares (server : Server) : Prop :=
  server.clientsCounter < maxClients ∧ ∀ name, server.descriptors 0 ≠ some (.queue name)

/-- **What the server has done with a message** of the client with the queue `name`. -/
structure Serves (server server' : Server) (queues queues' : Queues) (m : Msgbuf) (name : Text) :
    Prop where
  grows : server.Grows server'
  ready : server'.Ready
  others : ∀ n, n ≠ name → queues' n = queues n
  answer : ∀ q, m.Asks → queues name = some q →
    ∃ a, queues' name = some (q ++ [a]) ∧ m.AnsweredBy a server' name

/-- A send to a queue that is there appends the message. -/
theorem mqSend_queue {q : List Msgbuf} (hfd : server.descriptors fd = some (.queue name))
    (hq : queues name = some q) (h : mqSend fd msg server queues = .ok queues') :
    queues' = Function.update queues name (some (q ++ [msg])) := by
  unfold mqSend at h
  simp only [hfd, hq] at h
  split at h
  · exact (Except.ok.inj h).symm
  · cases h

/-- A send to a queue that has been removed reaches nobody. -/
theorem mqSend_gone (hfd : server.descriptors fd = some (.queue name)) (hq : queues name = none) :
    mqSend fd msg server queues = .ok queues := by
  unfold mqSend
  simp only [hfd, hq]

/-- Neither does one to what is no queue. -/
theorem mqSend_none (hfd : ∀ name, server.descriptors fd ≠ some (.queue name)) :
    mqSend fd msg server queues = .ok queues := by
  unfold mqSend
  split
  · rename_i name hname
    exact absurd hname (hfd name)
  · rfl

/-- **The message comes into the queue that the descriptor is open for**, if there is one. -/
theorem mqSend_cases (hfd : server.descriptors fd = some (.queue name))
    (h : mqSend fd msg server queues = .ok queues') :
    (∀ n, n ≠ name → queues' n = queues n) ∧
      ∀ q, queues name = some q → queues' name = some (q ++ [msg]) := by
  cases hq : queues name with
  | none =>
    rw [mqSend_gone hfd hq] at h
    cases h
    exact ⟨fun _ _ => rfl, fun q hq => by cases hq⟩
  | some q =>
    rw [mqSend_queue hfd hq h]
    refine ⟨fun n hn => Function.update_of_ne hn _ _, ?_⟩
    rintro q' ⟨⟩
    exact Function.update_self _ _ _

/-- A descriptor that was not open comes to lead somewhere, and one more entry is in use. -/
theorem Server.grows_accept {d : ℤ} {descriptors : ℤ → Option File}
    (hroom : server.clientsCounter < maxClients)
    (hkept : ∀ d name, server.descriptors d = some (.queue name) →
      descriptors d = some (.queue name)) :
    server.Grows
      { clientsQueueIDS := server.clientsQueueIDS.set server.clientsCounter d hroom
        clientsCounter := server.clientsCounter + 1
        descriptors } := by
  rintro i name ⟨hlt, d', hentry, hopen⟩
  refine ⟨Nat.lt_succ_of_lt hlt, d', ?_, hkept d' name hopen⟩
  show (server.clientsQueueIDS.set server.clientsCounter d hroom)[i]? = some d'
  rw [Vector.getElem?_set_ne hroom (by omega)]
  exact hentry

/-- The server is ready for the next client after it has accepted one. -/
theorem Server.Ready.accept (ready : server.Ready) {d : ℤ} {descriptors : ℤ → Option File}
    (hroom : server.clientsCounter < maxClients)
    (hminus : ∀ name, descriptors (-1) ≠ some (.queue name)) :
    Server.Ready
      { clientsQueueIDS := server.clientsQueueIDS.set server.clientsCounter d hroom
        clientsCounter := server.clientsCounter + 1
        descriptors } where
  counter := hroom
  unused i hi hlt := by
    show (server.clientsQueueIDS.set server.clientsCounter d hroom)[i]? = some 0
    have hi : server.clientsCounter + 1 ≤ i := hi
    rw [Vector.getElem?_set_ne hroom (by omega)]
    exact ready.unused i (by omega) hlt
  minus := hminus

/-- **A client is accepted.** -/
theorem msgRcv_accept (ready : server.Ready) (hfd : 0 ≤ fd ∧ server.descriptors fd = none)
    (hm : m.mtype = .clientRequest) (hname : m.mtext = name)
    (hroom : server.clientsCounter < maxClients)
    (h : server.msgRcv fd time m queues = .ok (server', queues')) :
    Serves server server' queues queues' m name := by
  unfold Server.msgRcv at h
  rw [hm] at h
  dsimp only at h
  rw [if_pos hroom, hname] at h
  cases hq : queues name with
  | none =>
    simp only [mqOpen, hq, bind_eq_ok_iff, store_of_lt _ _ hroom, Except.ok.injEq,
      exists_eq_left', mqSend_none ready.minus] at h
    cases h
    constructor
    · exact Server.grows_accept hroom fun _ _ => id
    · exact ready.accept hroom ready.minus
    · exact fun _ _ => rfl
    · intro q _ hq'
      rw [hq] at hq'
      cases hq'
  | some q =>
    simp only [mqOpen, hq, bind_eq_ok_iff, store_of_lt _ _ hroom, Except.ok.injEq,
      exists_eq_left'] at h
    obtain ⟨queues'', hsend, heq⟩ := h
    cases heq
    have hopened : { server with
        descriptors := Function.update server.descriptors fd (some (.queue name)) }.descriptors fd =
        some (.queue name) := Function.update_self _ _ _
    obtain ⟨hothers, hown⟩ := mqSend_cases hopened hsend
    have hkept : ∀ d n, server.descriptors d = some (.queue n) →
        Function.update server.descriptors fd (some (.queue name)) d = some (.queue n) := by
      intro d n hd
      have hne : d ≠ fd := by
        rintro rfl
        rw [hfd.2] at hd
        cases hd
      rw [Function.update_of_ne hne]
      exact hd
    constructor
    · exact Server.grows_accept hroom hkept
    · apply ready.accept hroom
      intro n
      rw [Function.update_of_ne (by omega)]
      exact ready.minus n
    · exact hothers
    · intro q' _ hq'
      refine ⟨_, hown q' hq', ?_⟩
      unfold Msgbuf.AnsweredBy
      rw [hm]
      refine .inr ⟨rfl, Nat.lt_succ_self _, fd, ?_, hopened⟩
      exact Vector.getElem?_set_self hroom

/-- **A client is refused.** -/
theorem msgRcv_deny (ready : server.Ready) (hfd : 0 ≤ fd ∧ server.descriptors fd = none)
    (hm : m.mtype = .clientRequest) (hname : m.mtext = name)
    (hfull : ¬ server.clientsCounter < maxClients)
    (h : server.msgRcv fd time m queues = .ok (server', queues')) :
    Serves server server' queues queues' m name := by
  unfold Server.msgRcv at h
  rw [hm] at h
  dsimp only at h
  rw [if_neg hfull, hname] at h
  have hanswer : ∀ a : Msgbuf, a.mtype = .serverDenies → m.AnsweredBy a server name := by
    intro a ha
    unfold Msgbuf.AnsweredBy
    rw [hm]
    exact .inl ha
  cases hq : queues name with
  | none =>
    simp only [mqOpen, hq, bind_eq_ok_iff, mqSend_none ready.minus, Except.ok.injEq,
      exists_eq_left'] at h
    cases h
    constructor
    · rintro i n ⟨hlt, d, hentry, hopen⟩
      refine ⟨hlt, d, hentry, ?_⟩
      have hne : d ≠ -1 := by
        rintro rfl
        exact ready.minus n hopen
      show Function.update server.descriptors (-1) none d = _
      rw [Function.update_of_ne hne]
      exact hopen
    · refine ⟨ready.counter, ready.unused, ?_⟩
      intro n
      show Function.update server.descriptors (-1) none (-1) ≠ _
      rw [Function.update_self]
      simp
    · exact fun _ _ => rfl
    · intro q _ hq'
      rw [hq] at hq'
      cases hq'
  | some q =>
    simp only [mqOpen, hq, bind_eq_ok_iff] at h
    obtain ⟨queues'', hsend, heq⟩ := h
    cases heq
    have hopened : { server with
        descriptors := Function.update server.descriptors fd (some (.queue name)) }.descriptors fd =
        some (.queue name) := Function.update_self _ _ _
    obtain ⟨hothers, hown⟩ := mqSend_cases hopened hsend
    -- the descriptor is closed again
    have hsame : Function.update (Function.update server.descriptors fd (some (.queue name))) fd
        none = server.descriptors := by
      rw [Function.update_idem, Function.update_eq_self_iff]
      exact hfd.2.symm
    have hserver : mqClose fd { server with
        descriptors := Function.update server.descriptors fd (some (.queue name)) } = server := by
      unfold mqClose
      dsimp only
      rw [hsame]
    rw [hserver]
    constructor
    · exact fun _ _ => id
    · exact ready
    · exact hothers
    · intro q' _ hq'
      exact ⟨_, hown q' hq', hanswer _ rfl⟩

/-- **A service** is answered into the client's own queue. -/
theorem msgRcv_service (ready : server.Ready) (hm : m.IsService)
    (hid : server.Lists m.clientID name)
    (h : server.msgRcv fd time m queues = .ok (server', queues')) :
    Serves server server' queues queues' m name := by
  obtain ⟨hlt, d, hentry, hopen⟩ := hid
  have hrespond : ∀ text, respond m text server queues = .ok (server', queues') →
      (∀ a : Msgbuf, a.mtype = .serverResponse → a.mtext = text → m.AnsweredBy a server name) →
      Serves server server' queues queues' m name := by
    intro text hrespond hanswer
    unfold respond at hrespond
    dsimp only at hrespond
    rw [(load_eq_ok_iff _ _).mpr hentry] at hrespond
    simp only [bind_eq_ok_iff, Except.ok.injEq, exists_eq_left'] at hrespond
    obtain ⟨queues'', hsend, heq⟩ := hrespond
    cases heq
    obtain ⟨hothers, hown⟩ := mqSend_cases hopen hsend
    constructor
    · exact fun _ _ => id
    · exact ready
    · exact hothers
    · intro q _ hq
      exact ⟨_, hown q hq, hanswer _ rfl rfl⟩
  unfold Server.msgRcv at h
  rcases hm with hm | hm | hm
  all_goals
    rw [hm] at h
    dsimp only at h
    apply hrespond _ h
    intro a htype htext
    unfold Msgbuf.AnsweredBy
    simp only [hm]
  · exact ⟨htype, htext⟩
  · exact ⟨htype, htext⟩
  · exact htype

/-- **A logout** that closes no descriptor of a client. -/
theorem msgRcv_spared (ready : server.Ready) (hm : m.mtype = .clientLogout)
    (hspares : server.Spares) (h : server.msgRcv fd time m queues = .ok (server', queues')) :
    Serves server server' queues queues' m name := by
  rw [msgRcv_logout fd time hm (ready.unused _ (Nat.le_refl _) hspares.1)] at h
  cases h
  constructor
  · rintro i n ⟨hlt, d, hentry, hopen⟩
    refine ⟨hlt, d, hentry, ?_⟩
    have hne : d ≠ 0 := by
      rintro rfl
      exact hspares.2 n hopen
    show Function.update server.descriptors 0 none d = _
    rw [Function.update_of_ne hne]
    exact hopen
  · refine ⟨ready.counter, ready.unused, ?_⟩
    intro n
    show Function.update server.descriptors 0 none (-1) ≠ _
    rw [Function.update_of_ne (by decide)]
    exact ready.minus n
  · exact fun _ _ => rfl
  · rintro q (hasks | hasks | hasks | hasks)
    all_goals
      rw [hm] at hasks
      cases hasks

/-- **What the server does with a message**, whatever it is. -/
theorem msgRcv_serves (ready : server.Ready) (hfd : 0 ≤ fd ∧ server.descriptors fd = none)
    (takes : server.Takes m name) (hspares : m.mtype = .clientLogout → server.Spares)
    (h : server.msgRcv fd time m queues = .ok (server', queues')) :
    Serves server server' queues queues' m name := by
  have hother : ¬ m.Asks → server' = server → queues' = queues →
      Serves server server' queues queues' m name := by
    rintro hasks rfl rfl
    exact ⟨fun _ _ => id, ready, fun _ _ => rfl, fun _ h => absurd h hasks⟩
  cases hm : m.mtype with
  | clientRequest =>
    by_cases hroom : server.clientsCounter < maxClients
    · exact msgRcv_accept ready hfd hm (takes.named hm) hroom h
    · exact msgRcv_deny ready hfd hm (takes.named hm) hroom h
  | serviceEcho => exact msgRcv_service ready (.inl hm) (takes.listed (.inl hm)) h
  | serviceUpper => exact msgRcv_service ready (.inr (.inl hm)) (takes.listed (.inr (.inl hm))) h
  | serviceTime => exact msgRcv_service ready (.inr (.inr hm)) (takes.listed (.inr (.inr hm))) h
  | clientLogout => exact msgRcv_spared ready hm (hspares hm) h
  | serviceTerm =>
    unfold Server.msgRcv at h
    rw [hm] at h
    cases h
  | serverAccept | serverDenies | serverResponse =>
    unfold Server.msgRcv at h
    rw [hm] at h
    cases h
    apply hother _ rfl rfl
    simp [Msgbuf.Asks, Msgbuf.IsService, hm]

/-- The server makes no access outside its table. -/
theorem msgRcv_defined (ready : server.Ready) (hfd : server.descriptors fd = none)
    (takes : server.Takes m name) (hspares : m.mtype = .clientLogout → server.Spares) :
    server.msgRcv fd time m queues ≠ .error .undefined := by
  have hsound : Queues.Sound queues fun k : Empty => k.elim := fun k => k.elim
  by_cases hrequest : m.mtype = .clientRequest
  · by_cases hroom : server.clientsCounter < maxClients
    · exact (msgRcv_accept_within fd time hsound hrequest hroom).1
    · exact (msgRcv_deny_within time hsound hrequest hroom hfd).1
  · by_cases hlogout : m.mtype = .clientLogout
    · rw [msgRcv_logout fd time hlogout
        (ready.unused _ (Nat.le_refl _) (hspares hlogout).1)]
      simp
    · by_cases hservice : m.IsService
      · have hlt := (takes.listed hservice).1
        have hid : m.clientID < maxClients := Nat.lt_of_lt_of_le hlt ready.counter
        exact (msgRcv_other_within fd time hsound hrequest hlogout hid).1
      · unfold Server.msgRcv
        cases hm : m.mtype with
        | clientRequest => exact absurd hm hrequest
        | clientLogout => exact absurd hm hlogout
        | serviceEcho => exact absurd (.inl hm) hservice
        | serviceUpper => exact absurd (.inr (.inl hm)) hservice
        | serviceTime => exact absurd (.inr (.inr hm)) hservice
        | _ => simp

end Serve

/-! ## The invariant -/

variable [DecidableEq κ] {queueName : κ → Text} {s s' : State κ} {k : κ} {e : Event κ}

/-- **The lockstep of all clients**, while the server runs. -/
structure Lockstep (queueName : κ → Text) (s : State κ) : Prop where
  ready : s.server.Ready
  takes : ∀ p ∈ s.pending, s.server.Takes p.2 (queueName p.1)
  stage : ∀ k, Stage s.server (queueName k) (s.client k) (s.messages k)
    (s.clientQueue (queueName k))

/-- All clients are before their first request. -/
theorem lockstep_start (h : Start queueName s) : Lockstep queueName s := by
  have hpending : s.pending = [] := by
    unfold State.pending
    rw [h.serverPc, h.serverQueue]
  constructor
  · constructor
    · simp [h.counter]
    · intro i _ hi
      simp [h.table, hi]
    · exact h.descriptors (-1)
  · simp [hpending]
  · intro k
    unfold Stage
    rw [(h.client k).1, State.messages, hpending, h.clientQueue k]
    exact ⟨rfl, rfl⟩

/-- **A step about one client**: what it sends is `ms`. -/
theorem Lockstep.client (h : Lockstep queueName s) (k : κ) (ms : List Msgbuf)
    (hserver : s'.server = s.server) (hpending : s'.pending = s.pending ++ ms.map fun m => (k, m))
    (hclient : ∀ k', k' ≠ k → s'.client k' = s.client k')
    (hqueue : ∀ k', k' ≠ k → s'.clientQueue (queueName k') = s.clientQueue (queueName k'))
    (htakes : ∀ m ∈ ms, s.server.Takes m (queueName k))
    (hstage : Stage s.server (queueName k) (s'.client k) (s.messages k ++ ms)
      (s'.clientQueue (queueName k))) : Lockstep queueName s' := by
  constructor
  · rw [hserver]
    exact h.ready
  · intro p hp
    rw [hserver]
    rw [hpending] at hp
    rcases List.mem_append.mp hp with hp | hp
    · exact h.takes p hp
    · obtain ⟨m, hm, rfl⟩ := List.mem_map.mp hp
      exact htakes m hm
  · intro k'
    rw [hserver, State.messages, hpending, List.filter_append, List.map_append]
    by_cases hk : k' = k
    · subst hk
      have hall : ((ms.map fun m => (k', m)).filter fun p => p.1 = k').map Prod.snd = ms := by
        rw [List.filter_map, List.map_map]
        simp [Function.comp_def]
      rw [hall]
      exact hstage
    · have hnone : (ms.map fun m => (k, m)).filter (fun p => p.1 = k') = [] := by
        rw [List.filter_map]
        simp [Function.comp_def, Ne.symm hk]
      rw [hnone, hclient k' hk, hqueue k' hk, List.map_nil, List.append_nil]
      exact h.stage k'

/-! ## The clients -/

/-- What is neither a registration nor a service does not concern a client's own entry. -/
theorem Server.takes_other {server : Server} {m : Msgbuf} (name : Text)
    (hrequest : m.mtype ≠ .clientRequest) (hservice : ¬ m.IsService) : server.Takes m name :=
  ⟨fun h => absurd h hrequest, fun h => absurd h hservice⟩

/-- A client goes on without a message to the server, and only its own queue changes. -/
theorem Lockstep.moves (hinj : Function.Injective queueName) (h : Lockstep queueName s) {c : Client}
    {own : Option (List Msgbuf)}
    (hstage : Stage s.server (queueName k) c (s.messages k) own) :
    Lockstep queueName { s.setClient k c with
      clientQueue := Function.update s.clientQueue (queueName k) own } := by
  apply h.client k []
  · rfl
  · exact (List.append_nil _).symm
  · exact fun k' hk => Function.update_of_ne hk _ _
  · exact fun k' hk => Function.update_of_ne (fun heq => hk (hinj heq)) _ _
  · simp
  · rw [List.append_nil]
    show Stage s.server (queueName k) (Function.update s.client k c k) (s.messages k)
      (Function.update s.clientQueue (queueName k) own (queueName k))
    rw [Function.update_self, Function.update_self]
    exact hstage

/-- A client goes on alone. -/
theorem Lockstep.goes (h : Lockstep queueName s) {c : Client}
    (hstage : Stage s.server (queueName k) c (s.messages k) (s.clientQueue (queueName k))) :
    Lockstep queueName (s.setClient k c) := by
  apply h.client k []
  · rfl
  · exact (List.append_nil _).symm
  · exact fun k' hk => Function.update_of_ne hk _ _
  · exact fun _ _ => rfl
  · simp
  · rw [List.append_nil]
    show Stage s.server (queueName k) (Function.update s.client k c k) (s.messages k) _
    rw [Function.update_self]
    exact hstage

/-- **A client sends a message**, and goes on as `c`. -/
theorem Lockstep.send (h : Lockstep queueName s) {m : Msgbuf} {c : Client}
    (hstep : msgSnd k m c s = some (e, s'))
    (htakes : s.server.Takes { m with clientID := c.clientID } (queueName k))
    (hstage : Stage s.server (queueName k) c (s.messages k ++ [{ m with clientID := c.clientID }])
      (s.clientQueue (queueName k))) : Lockstep queueName s' := by
  unfold msgSnd at hstep
  dsimp only at hstep
  split at hstep
  · cases hstep
    apply h.client k [{ m with clientID := c.clientID }]
    · rfl
    · unfold State.pending State.setClient
      cases s.serverPc <;> rfl
    · exact fun k' hk => Function.update_of_ne hk _ _
    · exact fun _ _ => rfl
    · intro m' hm'
      rw [List.mem_singleton.mp hm']
      exact htakes
    · show Stage s.server (queueName k) (Function.update s.client k c k) _ _
      rw [Function.update_self]
      exact hstage
  · cases hstep

/-- **A client receives its answer.** -/
theorem Lockstep.receive (hinj : Function.Injective queueName) (h : Lockstep queueName s)
    (hpc : (s.client k).pc = .receiveFirst ∨ (s.client k).pc = .receive)
    (hstep : msgRcv (queueName k) k s = some (e, s')) : Lockstep queueName s' := by
  have hstage := h.stage k
  unfold msgRcv at hstep
  dsimp only at hstep
  split at hstep
  · rename_i msg rest hown
    rw [hown] at hstage
    have honly : ∀ r, OnWay s.server (queueName k) r (s.messages k) (some (msg :: rest)) →
        s.messages k = [] ∧ rest = [] ∧ r.AnsweredBy msg s.server (queueName k) := by
      rintro r (⟨-, hempty⟩ | ⟨hmessages, a, ha, hanswer⟩)
      · cases hempty
      · cases ha
        exact ⟨hmessages, rfl, hanswer⟩
    have hmoves : ∀ c, Stage s.server (queueName k) c (s.messages k) (some rest) →
        Lockstep queueName ({ s with
          clientQueue := Function.update s.clientQueue (queueName k) (some rest) }.setClient k c) :=
      fun c hc => h.moves hinj hc
    unfold Stage at hstage
    rcases hpc with hpc | hpc
    · simp only [hpc] at hstage
      obtain ⟨htype, hway⟩ := hstage
      obtain ⟨hmessages, rfl, hanswer⟩ := honly _ hway
      unfold Msgbuf.AnsweredBy at hanswer
      rw [Client.sent_mtype, htype] at hanswer
      rcases hanswer with hdenies | ⟨haccepts, hlists⟩
      · rw [hdenies] at hstep
        cases hstep
        exact hmoves _ (.of_leaving (.inl rfl))
      · rw [haccepts] at hstep
        cases hstep
        exact hmoves _ ⟨hlists, hmessages, rfl⟩
    · simp only [hpc] at hstage
      obtain ⟨hlists, hservice, hway⟩ := hstage
      obtain ⟨hmessages, rfl, hanswer⟩ := honly _ hway
      have hresponse : msg.mtype = .serverResponse := by
        unfold Msgbuf.AnsweredBy at hanswer
        rcases hservice with htype | htype | htype
        all_goals rw [Client.sent_mtype, htype] at hanswer
        · exact hanswer.1
        · exact hanswer.1
        · exact hanswer
      rw [hresponse] at hstep
      cases hstep
      exact hmoves _ ⟨hlists, hmessages, rfl⟩
  · cases hstep

/-- **One turn of a client's loop.** -/
theorem Lockstep.command (h : Lockstep queueName s) {cmd word : Text}
    (hpc : (s.client k).pc = .command) (hstep : command k cmd word s = some (e, s')) :
    Lockstep queueName s' := by
  have hstage := h.stage k
  unfold Stage at hstage
  simp only [hpc] at hstage
  obtain ⟨hlists, hmessages, hown⟩ := hstage
  have hservice : ∀ msg : Msgbuf, msg.IsService →
      msgSnd k msg.held { s.client k with pc := .receive, msg } s = some (e, s') →
      Lockstep queueName s' := by
    intro msg hmsg hsnd
    apply h.send hsnd
    · constructor
      · intro hrequest
        rcases hmsg with hmsg | hmsg | hmsg
        all_goals
          rw [show msg.mtype = .clientRequest from hrequest] at hmsg
          cases hmsg
      · exact fun _ => hlists
    · refine ⟨hlists, hmsg, .inl ⟨?_, hown⟩⟩
      rw [Client.sent_service hmsg, hmessages]
      rfl
  unfold PosixMessages.command at hstep
  dsimp only at hstep
  split_ifs at hstep
  · exact hservice _ (.inl rfl) hstep
  · exact hservice _ (.inr (.inl rfl)) hstep
  · exact hservice _ (.inr (.inr rfl)) hstep
  · apply h.send hstep
    · apply Server.takes_other
      · simp
      · simp [Msgbuf.IsService]
    · exact .of_leaving (.inl rfl)
  · cases hstep
    exact h

/-- **A step of a client.** -/
theorem Lockstep.clientMain (hinj : Function.Injective queueName) (h : Lockstep queueName s)
    {cmd word : Text} (hstep : clientMain (queueName k) k cmd word s = some (e, s')) :
    Lockstep queueName s' := by
  have hstage := h.stage k
  unfold Stage at hstage
  unfold PosixMessages.clientMain at hstep
  dsimp only at hstep
  split at hstep
  case h_1 hpc =>
    simp only [hpc] at hstage
    split at hstep
    · cases hstep
      exact h.moves hinj ⟨hstage.1, rfl⟩
    · cases hstep
      exact h.goes (.of_leaving (.inr (.inr rfl)))
  case h_2 hpc =>
    simp only [hpc] at hstage
    apply h.send hstep
    · constructor
      · exact fun _ => rfl
      · rintro (htype | htype | htype) <;> cases htype
    · refine ⟨rfl, .inl ⟨?_, hstage.2⟩⟩
      rw [Client.sent_request rfl, hstage.1]
      rfl
  case h_3 hpc => exact h.receive hinj (.inl hpc) hstep
  case h_4 hpc => exact h.receive hinj (.inr hpc) hstep
  case h_5 hpc => exact h.command hpc hstep
  case h_6 hpc =>
    apply h.send hstep
    · apply Server.takes_other
      · simp
      · simp [Msgbuf.IsService]
    · exact .of_leaving (.inr (.inl rfl))
  case h_7 hpc =>
    cases hstep
    exact h.moves hinj (.of_leaving (.inr (.inr rfl)))
  case h_8 => cases hstep

/-- **`SIGINT`** of a client. -/
theorem Lockstep.interrupt (h : Lockstep queueName s) (hstep : interrupt k s = some (e, s')) :
    Lockstep queueName s' := by
  unfold PosixMessages.interrupt at hstep
  dsimp only at hstep
  split at hstep
  case h_5 => cases hstep
  all_goals
    cases hstep
    exact h.goes (.of_leaving (.inl rfl))

/-! ## The server -/

/-- **The server has dealt with the message in its hands.** -/
theorem Lockstep.handled (hinj : Function.Injective queueName) (h : Lockstep queueName s)
    {m : Msgbuf} (hpc : s.serverPc = .handle k m) {server : Server} {queues : Queues}
    (serves : Serves s.server server s.clientQueue queues m (queueName k)) :
    Lockstep queueName { s with serverPc := .receive, server, clientQueue := queues } := by
  constructor
  · exact serves.ready
  · intro p hp
    have hold := h.takes p <| by
      unfold State.pending
      rw [hpc]
      exact List.mem_cons_of_mem _ hp
    exact ⟨hold.named, fun hservice => serves.grows _ _ (hold.listed hservice)⟩
  · intro k'
    have hstage := h.stage k'
    show Stage server (queueName k') (s.client k')
      ({ s with serverPc := .receive : State κ }.messages k') (queues (queueName k'))
    by_cases hk : k' = k
    · subst hk
      rw [messages_handle hpc] at hstage
      by_cases hleaving : (s.client k').pc.Leaving
      · exact .of_leaving hleaving
      · obtain ⟨hkind, -, -, hown⟩ := hstage.first hleaving
        have hasks : m.Asks := by
          rcases hkind with ⟨-, hrequest⟩ | ⟨-, hservice, -⟩
          · exact .inl hrequest
          · exact .inr hservice
        obtain ⟨a, ha, hanswer⟩ := serves.answer [] hasks hown
        rw [ha]
        exact hstage.answered serves.grows hanswer hown
    · rw [← messages_handle_of_ne hpc hk, serves.others _ fun heq => hk (hinj heq)]
      exact hstage.mono serves.grows

/-- The step does not deal with a logout that closes somebody's descriptor or reads behind the
table. -/
def Event.Spares (s : State κ) : Event κ → Prop
  | .handles _ m _ | .faults _ m => m.mtype = .clientLogout → s.server.Spares
  | _ => True

/-- **The server makes no access outside its table.** -/
theorem Lockstep.no_fault (h : Lockstep queueName s) {fd : ℤ} {time : Text} {m : Msgbuf}
    (hstep : PosixMessages.serverMain fd time s = some (.faults k m, s'))
    (hspares : (Event.faults k m).Spares s) : False := by
  rcases serverMain_cases hstep with ⟨k, m, rest, -, -, he, -⟩ | ⟨k', m', hpc, hfd, hrcv⟩
  · cases he
  · have htakes : s.server.Takes m' (queueName k') := by
      apply h.takes (k', m')
      unfold State.pending
      rw [hpc]
      exact List.mem_cons_self
    rcases hrcv with ⟨server, queues, -, he, -⟩ | ⟨-, he, -⟩ | ⟨hfault, he, -⟩
    · cases he
    · cases he
    · cases he
      exact absurd hfault (msgRcv_defined h.ready hfd.2 htakes hspares)

/-- **A step of the server.** -/
theorem Lockstep.serverMain (hinj : Function.Injective queueName) (h : Lockstep queueName s)
    {fd : ℤ} {time : Text} (hstep : serverMain fd time s = some (e, s')) (hspares : e.Spares s) :
    Lockstep queueName s' ∨ s'.serverPc = .exited := by
  rcases serverMain_cases hstep with ⟨k, m, rest, hpc, hqueue, rfl, rfl⟩ | ⟨k, m, hpc, hfd, hrcv⟩
  · left
    have hpending : State.pending { s with serverPc := .handle k m, serverQueue := rest } =
        s.pending := by
      simp [State.pending, hpc, hqueue]
    apply h.client k []
    · rfl
    · rw [hpending]
      exact (List.append_nil _).symm
    · exact fun _ _ => rfl
    · exact fun _ _ => rfl
    · simp
    · rw [List.append_nil]
      exact h.stage k
  · have htakes : s.server.Takes m (queueName k) := by
      apply h.takes (k, m)
      unfold State.pending
      rw [hpc]
      exact List.mem_cons_self
    rcases hrcv with ⟨server, queues, hok, rfl, rfl⟩ | ⟨-, rfl, rfl⟩ | ⟨hfault, rfl, rfl⟩
    · exact .inl (h.handled hinj hpc (msgRcv_serves h.ready hfd htakes hspares hok))
    · exact .inr rfl
    · exact absurd hfault (msgRcv_defined h.ready hfd.2 htakes hspares)

/-- The program with its history, in which the words that are read have room in their arrays, and
no logout closes a client's descriptor or reads behind the table. -/
def spared (queueName : κ → Text) : System (List (Event κ) × State κ) (Event κ) :=
  (fitting queueName).system.guarded fun _ s e => e.Spares s

/-- **The lockstep holds in every such run**, until the server exits. -/
theorem lockstep_spared (hinj : Function.Injective queueName) {l : List (Event κ)}
    (h : (spared queueName).Reachable (l, s)) :
    (Lockstep queueName s ∨ s.serverPc = .exited) ∧ ∀ k m, Event.faults k m ∉ l := by
  apply System.guarded_induction
    (I := fun l s => (Lockstep queueName s ∨ s.serverPc = .exited) ∧ ∀ k m, Event.faults k m ∉ l)
    _ _ h
  · exact fun s hinit => ⟨.inl (lockstep_start hinit), by simp⟩
  · rintro l s e s' ⟨hlock, hnoFault⟩ hstep hspares
    have hnew : (∀ k m, e ≠ .faults k m) → ∀ k m, Event.faults k m ∉ l ++ [e] := by
      intro he k m hmem
      rcases List.mem_append.mp hmem with hmem | hmem
      · exact hnoFault k m hmem
      · exact he k m (List.mem_singleton.mp hmem).symm
    have hclient : e.OfClient ∧ s'.serverPc = s.serverPc →
        (Lockstep queueName s → Lockstep queueName s') →
        (Lockstep queueName s' ∨ s'.serverPc = .exited) ∧ ∀ k m, Event.faults k m ∉ l ++ [e] := by
      rintro ⟨hof, hpc⟩ hkept
      refine ⟨hlock.imp hkept fun hexited => hpc.trans hexited, hnew ?_⟩
      rintro k m rfl
      exact hof
    obtain ⟨choice, hnext⟩ := Machine.restricted_step hstep
    cases choice with
    | client k cmd word =>
      exact hclient (clientMain_event hnext) fun hlock => hlock.clientMain hinj hnext
    | interrupt k => exact hclient (interrupt_event hnext) fun hlock => hlock.interrupt hnext
    | server fd time =>
      rcases hlock with hlock | hexited
      · refine ⟨hlock.serverMain hinj hnext hspares, hnew ?_⟩
        rintro k m rfl
        exact hlock.no_fault hnext hspares
      · have hnone : serverMain fd time s = some (e, s') := hnext
        unfold serverMain at hnone
        rw [hexited] at hnone
        cases hnone

/-! ## Words that have room -/

/-- The word that a client waits for the answer to is in its array, with its `0`. -/
def Client.Holds (c : Client) : Prop :=
  c.pc = .receive → c.msg.mtype = .serviceEcho ∨ c.msg.mtype = .serviceUpper →
    c.msg.mtext.length < textSize

/-- A client that does not wait for an answer. -/
theorem Client.holds_of_ne {c : Client} (h : c.pc ≠ .receive) : c.Holds :=
  fun hreceive => absurd hreceive h

/-- A client that sends goes on as it says. -/
theorem msgSnd_client {m : Msgbuf} {c : Client} (h : msgSnd k m c s = some (e, s')) :
    s'.client = Function.update s.client k c := by
  unfold msgSnd at h
  dsimp only at h
  split_ifs at h
  cases h
  rfl

/-- A client that has received does not wait. -/
theorem holds_msgRcv {name : Text} (h : msgRcv name k s = some (e, s')) :
    ∃ c : Client, s'.client = Function.update s.client k c ∧ c.Holds := by
  unfold msgRcv at h
  dsimp only at h
  split at h
  · split at h
    all_goals
      cases h
      exact ⟨_, rfl, Client.holds_of_ne (by simp)⟩
  · cases h

/-- **A client's step**, when the words that it reads have room. The cases are the program
points. -/
theorem holds_clientMain {name cmd word : Text} (hk : (s.client k).Holds)
    (hfits : (Choice.client k cmd word).Fits s) (h : clientMain name k cmd word s = some (e, s')) :
    ∃ c : Client, s'.client = Function.update s.client k c ∧ c.Holds := by
  unfold PosixMessages.clientMain at h
  dsimp only at h
  split at h
  case h_1 =>
    split at h
    all_goals
      cases h
      exact ⟨_, rfl, Client.holds_of_ne (by simp)⟩
  case h_2 | h_6 => exact ⟨_, msgSnd_client h, Client.holds_of_ne (by simp)⟩
  case h_3 | h_4 => exact holds_msgRcv h
  case h_5 hpc =>
    have hword := (hfits hpc).2
    unfold PosixMessages.command at h
    dsimp only at h
    split_ifs at h with hecho hupper htime hterm
    · exact ⟨_, msgSnd_client h, fun _ _ => hword (.inl hecho)⟩
    · exact ⟨_, msgSnd_client h, fun _ _ => hword (.inr hupper)⟩
    · exact ⟨_, msgSnd_client h, fun _ htype => by simp at htype⟩
    · exact ⟨_, msgSnd_client h, Client.holds_of_ne (by simp)⟩
    · cases h
      exact ⟨s.client k, (Function.update_eq_self k s.client).symm, hk⟩
  case h_7 =>
    cases h
    exact ⟨_, rfl, Client.holds_of_ne (by simp)⟩
  case h_8 => cases h

/-- `SIGINT` of a client. -/
theorem holds_interrupt (h : interrupt k s = some (e, s')) :
    ∃ c : Client, s'.client = Function.update s.client k c ∧ c.Holds := by
  unfold PosixMessages.interrupt at h
  dsimp only at h
  split at h
  case h_5 => cases h
  all_goals
    cases h
    exact ⟨_, rfl, Client.holds_of_ne (by simp)⟩

/-- **The words stay in their arrays** in every run in which those that are read have room. -/
theorem holds_invariant :
    (fitting queueName).system.Invariant fun s => ∀ k, (s.client k).Holds where
  init s h k := Client.holds_of_ne (by rw [(h.client k).1]; simp)
  step s e s' h := by
    rintro ⟨choice, hstep⟩ k'
    obtain ⟨hfits, hnext⟩ := Machine.restricted_next_iff.mp hstep
    have hclient : ∀ k, (∃ c : Client, s'.client = Function.update s.client k c ∧ c.Holds) →
        (s'.client k').Holds := by
      rintro k ⟨c, hclient, hc⟩
      rw [hclient]
      by_cases heq : k' = k
      · rw [heq, Function.update_self]
        exact hc
      · rw [Function.update_of_ne heq]
        exact h k'
    cases choice with
    | client k cmd word => exact hclient k (holds_clientMain (h k) hfits hnext)
    | interrupt k => exact hclient k (holds_interrupt hnext)
    | server fd time =>
      rcases serverMain_cases hnext with ⟨k, m, rest, -, -, -, rfl⟩ | ⟨k, m, -, -, hrcv⟩
      · exact h k'
      · rcases hrcv with ⟨_, _, -, -, rfl⟩ | ⟨-, -, rfl⟩ | ⟨-, -, rfl⟩ <;> exact h k'

/-- They do so in the runs in which no logout does harm. -/
theorem holds_spared {l : List (Event κ)} (h : (spared queueName).Reachable (l, s)) (k : κ) :
    (s.client k).Holds := by
  refine System.guarded_induction (I := fun _ s => ∀ k, (s.client k).Holds) ?_ ?_ h k
  · exact holds_invariant.init
  · exact fun _ s e s' hs hstep _ => holds_invariant.step s e s' hs hstep

/-! ## The protocol -/

/-- A client in its loop. -/
def Client.InLoop (c : Client) : Prop :=
  c.pc = .command ∨ c.pc = .receive

/-- A client that is in `msg_rcv`, or is about to be. -/
def Client.Receiving (c : Client) : Prop :=
  c.pc = .receiveFirst ∨ c.pc = .receive

/-- The messages between client `k` and the server that somebody waits for: the requests that
await an answer and are with the server, and what is in the client's own queue. -/
def State.outstanding (s : State κ) (queueName : κ → Text) (k : κ) : List Msgbuf :=
  (s.messages k).filter (fun m => m.AwaitsAnswer) ++ (s.clientQueue (queueName k)).getD []

/-- A client in its loop is on the server's list. -/
theorem Lockstep.lists (h : Lockstep queueName s) (hk : (s.client k).InLoop) :
    s.server.Lists (s.client k).clientID (queueName k) := by
  have hstage := h.stage k
  unfold Stage at hstage
  rcases hk with hpc | hpc
  all_goals
    simp only [hpc] at hstage
    exact hstage.1

omit [DecidableEq κ] in
/-- There is one message on its way, one way or the other. -/
theorem OnWay.length_eq {server : Server} {name : Text} {r : Msgbuf} {messages : List Msgbuf}
    {own : Option (List Msgbuf)} (h : OnWay server name r messages own) :
    messages.length + (own.getD []).length = 1 := by
  rcases h with ⟨hmessages, hown⟩ | ⟨hmessages, a, hown, -⟩ <;> simp [hmessages, hown]

/-- **At most one message is outstanding**, and none unless the client receives. -/
theorem Lockstep.outstanding (h : Lockstep queueName s) (hstays : ¬ (s.client k).pc.Leaving) :
    (s.outstanding queueName k).length ≤ 1 ∧
      (¬ (s.client k).Receiving → s.outstanding queueName k = []) := by
  have hstage := h.stage k
  have hle : (s.outstanding queueName k).length ≤
      (s.messages k).length + ((s.clientQueue (queueName k)).getD []).length := by
    rw [State.outstanding, List.length_append]
    exact Nat.add_le_add_right (List.length_filter_le _ _) _
  unfold Stage at hstage
  cases hpc : (s.client k).pc
  all_goals simp only [hpc] at hstage
  case receiveFirst =>
    have hone := hstage.2.length_eq
    exact ⟨by omega, fun hnot => absurd (.inl hpc) hnot⟩
  case receive =>
    have hone := hstage.2.2.length_eq
    exact ⟨by omega, fun hnot => absurd (.inr hpc) hnot⟩
  case start | request => simp [State.outstanding, hstage]
  case command => simp [State.outstanding, hstage]
  all_goals exact absurd (by simp [ClientPc.Leaving, hpc]) hstays

/-- **A service is answered as it should be.** -/
theorem Lockstep.response (h : Lockstep queueName s) {a : Msgbuf} {rest : List Msgbuf}
    (hpc : (s.client k).pc = .receive)
    (hown : s.clientQueue (queueName k) = some (a :: rest)) :
    (s.client k).sent.AnsweredBy a s.server (queueName k) := by
  have hstage := h.stage k
  simp only [Stage, hpc] at hstage
  obtain ⟨-, -, ⟨-, hempty⟩ | ⟨-, a', hone, ha⟩⟩ := hstage
  · simp [hown] at hempty
  · simp only [hown, Option.some.injEq, List.cons.injEq] at hone
    rw [hone.1]
    exact ha

/-- **The request-response protocol over POSIX queues**, in every state until the server exits, of
every run in which the words that the clients read have room in their arrays, and no logout has
closed the descriptor of a client or met a full table: the ids of
the clients in their loops are different and lead to their queues; between a client that has not
begun to leave and the server at most one message is outstanding, and none unless the client
receives; the answer to `echo` or `upper` carries the text of the client's last request; and the
server reads nothing outside its table.
SOURCE: cw06/zad2/server.c:58-120, cw06/zad2/client.c:35-128 -/
theorem answers_in_lockstep (hinj : Function.Injective queueName) {l : List (Event κ)}
    (h : (spared queueName).Reachable (l, s)) (hruns : s.serverPc ≠ .exited) :
    (∀ k, (s.client k).InLoop → s.server.Lists (s.client k).clientID (queueName k)) ∧
    (∀ k k', (s.client k).InLoop → (s.client k').InLoop →
      (s.client k).clientID = (s.client k').clientID → k = k') ∧
    (∀ k, ¬ (s.client k).pc.Leaving → (s.outstanding queueName k).length ≤ 1 ∧
      (¬ (s.client k).Receiving → s.outstanding queueName k = [])) ∧
    (∀ k a rest, (s.client k).pc = .receive → s.clientQueue (queueName k) = some (a :: rest) →
      ((s.client k).msg.mtype = .serviceEcho →
        a.mtype = .serverResponse ∧ a.mtext = (s.client k).msg.mtext) ∧
      ((s.client k).msg.mtype = .serviceUpper →
        a.mtype = .serverResponse ∧ a.mtext = upperCaseF (s.client k).msg.mtext)) ∧
    ∀ k m, Event.faults k m ∉ l := by
  obtain ⟨hlock, hnoFault⟩ := lockstep_spared hinj h
  have hlock := hlock.resolve_right hruns
  refine ⟨fun k => hlock.lists, ?_, fun k => hlock.outstanding, ?_, hnoFault⟩
  · intro k k' hk hk' heq
    obtain ⟨-, d, hentry, hopen⟩ := hlock.lists hk
    obtain ⟨-, d', hentry', hopen'⟩ := hlock.lists hk'
    -- their common entry leads to the queues of both
    rw [heq, hentry'] at hentry
    rw [← Option.some.inj hentry, hopen'] at hopen
    exact (hinj (by simpa using hopen)).symm
  · intro k a rest hpc hown
    have ha := hlock.response hpc hown
    have hholds := holds_spared h k hpc
    have htext : (s.client k).msg.mtype = .serviceEcho ∨ (s.client k).msg.mtype = .serviceUpper →
        (s.client k).sent.mtext = (s.client k).msg.mtext := by
      intro htype
      have hservice : (s.client k).msg.IsService := htype.imp_right .inl
      rw [Client.sent_service hservice]
      exact Msgbuf.held_mtext (hholds htype)
    unfold Msgbuf.AnsweredBy at ha
    rw [Client.sent_mtype] at ha
    constructor
    · intro htype
      rw [htype, htext (.inl htype)] at ha
      exact ha
    · intro htype
      rw [htype, htext (.inr htype)] at ha
      exact ha

instance (server : Server) : Decidable server.Spares :=
  match h : server.descriptors 0 with
  | some (.queue name) => .isFalse fun hspares => hspares.2 name h
  | none | some .other =>
    decidable_of_iff (server.clientsCounter < maxClients) (by simp [Server.Spares, h])

/-- Should the server be about to deal with a logout, it closes no descriptor of a client and reads
nothing behind the table. -/
def State.Spared (s : State κ) : Prop :=
  match s.serverPc with
  | .handle _ m => m.mtype = .clientLogout → s.server.Spares
  | _ => True

instance (s : State κ) : Decidable s.Spared :=
  match h : s.serverPc with
  | .handle _ m =>
    decidable_of_iff (m.mtype = .clientLogout → s.server.Spares) (by simp [State.Spared, h])
  | .receive | .exited | .undefined => .isTrue (by simp [State.Spared, h])

/-- What such a state allows is what is asked of the step. -/
theorem State.Spared.spares {c : Choice κ} (hspared : s.Spared)
    (h : next queueName s c = some (e, s')) : e.Spares s := by
  cases c with
  | client k cmd word =>
    have hof := (clientMain_event h).1
    cases e <;> trivial
  | interrupt k =>
    have hof := (interrupt_event h).1
    cases e <;> trivial
  | server fd time =>
    rcases serverMain_cases h with ⟨k, m, rest, -, -, rfl, -⟩ | ⟨k, m, hpc, -, hrcv⟩
    · trivial
    · unfold State.Spared at hspared
      rw [hpc] at hspared
      rcases hrcv with ⟨-, -, -, rfl, -⟩ | ⟨-, rfl, -⟩ | ⟨-, rfl, -⟩
      · exact hspared
      · trivial
      · exact hspared

/-- The names of the queues of two clients. -/
def twoQueues (k : Bool) : Text :=
  if k then "/second".toList else "/first".toList

/-- The two clients have queues of their own. -/
theorem twoQueues_injective : Function.Injective twoQueues := by
  unfold Function.Injective
  decide

/-- A client starts and asks, the server takes the request and handles it, where `fd` is the
descriptor that is not open, and the client reads the answer. -/
def comes (k : Bool) (fd : ℤ) : List (Choice Bool) :=
  [.client k [] [], .client k [] [], .server fd [], .server fd [], .client k [] []]

/-- Two clients come, the first is interrupted and leaves, and the second asks for `upper ab`. -/
def upperSchedule : List (Choice Bool) :=
  comes false 4 ++ comes true 5 ++ [.interrupt false, .client false [] [], .server 6 [],
    .server 6 [], .client true "upper".toList "ab".toList, .server 6 [], .server 6 []]

/-- What has happened then: the logout has closed the server's standard input. -/
def upperRun : List (Event Bool) × State Bool :=
  ((fitting twoQueues).execWhile State.Spared (startState someMsg) upperSchedule).get
    (by decide +kernel)

/-- `AB` is on its way to the second client. -/
theorem answers_in_lockstep_upper :
    LoggedOut upperRun.1 false ∧ ∃ a, upperRun.2.clientQueue (twoQueues true) = some [a] ∧
      a.mtext = "AB".toList := by
  have hrun : ((fitting twoQueues).system.guarded fun _ s _ => s.Spared).Run
      ([], startState someMsg) upperRun.1 ([] ++ upperRun.1, upperRun.2) := by
    unfold upperRun
    exact Machine.execWhile_run_get [] _
  have hspared : (spared twoQueues).Run ([], startState someMsg) upperRun.1
      ([] ++ upperRun.1, upperRun.2) := by
    apply hrun.guarded_mono
    rintro _ _ _ _ hstep hspared
    obtain ⟨_, hnext⟩ := Machine.restricted_step hstep
    exact hspared.spares hnext
  obtain ⟨-, -, -, hanswer, -⟩ := answers_in_lockstep twoQueues_injective
    ⟨([], startState someMsg), _, ⟨rfl, start_startState twoQueues someMsg⟩, hspared⟩
    (by decide +kernel)
  constructor
  · refine ⟨⟨.clientLogout, 0, []⟩, none, rfl, ?_⟩
    decide +kernel
  · obtain ⟨a, ha⟩ : ∃ a, upperRun.2.clientQueue (twoQueues true) = some [a] := by
      apply Exists.intro
      rfl
    refine ⟨a, ha, ?_⟩
    rw [((hanswer true a [] (by decide +kernel) ha).2 (by decide +kernel)).2]
    decide +kernel

end SystemyOperacyjne.PosixMessages
