import SystemyOperacyjne.Model.PosixMessages

/-!
# What the server over POSIX queues does with a message

The server of `cw06/zad2` closes `clientsQueueIDS[clientsCounter]` when a client logs out. That
is the first entry not in use, which holds `0`, or, when the table is full, no entry at all. So
a logout does what it should only if the table is not full and the descriptor `0` happens to
be the one to close. A client that is accepted when its queue is gone has no descriptor at all.
`Right` says what the server should do, `Harmless` when it does.

`Order` says for one client in which order its messages reach the server: a client asks once,
first, and logs out once, last.
-/

set_option autoImplicit false

namespace SystemyOperacyjne.PosixMessages

open Library

variable {κ : Type}

/-! ## What the server does with a message -/

section Server

open SysVMessages (Text)

variable {server : Server} {queues : Queues} {msg : Msgbuf} {queueName : κ → Text}

/-- A message whose id, if it accepts somebody, is one of the table's. -/
def Msgbuf.Sound (msg : Msgbuf) : Prop :=
  msg.mtype = .serverAccept → msg.clientID < maxClients

/-- All the messages in the clients' queues are sound. -/
def Queues.Sound (queues : Queues) (queueName : κ → Text) : Prop :=
  ∀ k q, queues (queueName k) = some q → ∀ msg ∈ q, msg.Sound

/-- A queue may be changed as long as its messages are sound. -/
theorem Queues.Sound.update (h : queues.Sound queueName) {name : Text} {q : Option (List Msgbuf)}
    (hq : ∀ k l, queueName k = name → q = some l → ∀ msg ∈ l, msg.Sound) :
    Queues.Sound (Function.update queues name q) queueName := by
  intro k l hl
  by_cases heq : queueName k = name
  · rw [heq, Function.update_self] at hl
    exact hq k l heq hl
  · rw [Function.update_of_ne heq] at hl
    exact h k l hl

/-- `mq_send` of a sound message leaves sound queues. -/
theorem mqSend_within (fd : ℤ) (server : Server) (hqueues : queues.Sound queueName)
    (hmsg : msg.Sound) :
    Within .undefined (mqSend fd msg server queues) fun queues => queues.Sound queueName := by
  unfold mqSend
  split
  · split
    · next q hq =>
      split
      · apply Within.ok
        apply hqueues.update
        intro k l hname hl m hm
        cases hl
        rcases List.mem_append.mp hm with hm | hm
        · exact hqueues k q (hname ▸ hq) m hm
        · rw [List.mem_singleton.mp hm]
          exact hmsg
      · exact Within.error (by simp)
    · exact Within.ok hqueues
  · exact Within.ok hqueues

/-- **A service changes nothing but a queue**, if the id is one of the table's. -/
theorem respond_within (text : Text) (hqueues : queues.Sound queueName)
    (hid : msg.clientID < maxClients) :
    Within .undefined (respond msg text server queues) fun p =>
      p.1 = server ∧ p.2.Sound queueName := by
  unfold respond
  apply (Within.load hid).bind
  intro d _
  apply (mqSend_within d server hqueues (by simp [Msgbuf.Sound])).bind
  intro queues' hqueues'
  exact Within.ok ⟨rfl, hqueues'⟩

/-- What accepting a client does to the server: the first entry that is not in use holds what
`mq_open` has returned, which is no descriptor if the client's queue is gone. -/
def Server.Accepts (server server' : Server) (queues : Queues) (fd : ℤ) (name : Text) : Prop :=
  server'.clientsCounter = server.clientsCounter + 1 ∧
    ∃ d, (∀ i, server'.clientsQueueIDS[i]? =
        if i = server.clientsCounter then some d else server.clientsQueueIDS[i]?) ∧
      (queues name = none ∧ d = -1 ∧ server'.descriptors = server.descriptors ∨
        queues name ≠ none ∧ d = fd ∧ server'.descriptors =
          Function.update server.descriptors fd (some (.queue name)))

/-- **A `ClientRequest` while there is room.** -/
theorem msgRcv_accept_within (fd : ℤ) (time : Text) (hqueues : queues.Sound queueName)
    (hmsg : msg.mtype = .clientRequest) (hroom : server.clientsCounter < maxClients) :
    Within .undefined (server.msgRcv fd time msg queues) fun p =>
      server.Accepts p.1 queues fd msg.mtext ∧ p.2.Sound queueName := by
  unfold Server.msgRcv
  rw [hmsg]
  dsimp only
  rw [if_pos hroom]
  have hstore : ∀ d : ℤ, ∀ i : ℕ, (server.clientsQueueIDS.set server.clientsCounter d hroom)[i]? =
      if i = server.clientsCounter then some d else server.clientsQueueIDS[i]? := by
    intro d i
    rw [Vector.getElem?_set]
    simp [eq_comm]
  cases hq : queues msg.mtext with
  | none =>
    simp only [mqOpen, hq]
    apply (Within.store hroom _).bind
    rintro table rfl
    apply (mqSend_within _ _ hqueues fun _ => hroom).bind
    intro queues' hqueues'
    exact Within.ok ⟨⟨rfl, -1, hstore (-1), .inl ⟨hq, rfl, rfl⟩⟩, hqueues'⟩
  | some q =>
    simp only [mqOpen, hq]
    apply (Within.store hroom _).bind
    rintro table rfl
    apply (mqSend_within _ _ hqueues fun _ => hroom).bind
    intro queues' hqueues'
    exact Within.ok ⟨⟨rfl, fd, hstore fd, .inr ⟨by simp [hq], rfl, rfl⟩⟩, hqueues'⟩

/-- **A `ClientRequest` while there is none**: what is opened for the refusal is closed. -/
theorem msgRcv_deny_within {fd : ℤ} (time : Text) (hqueues : queues.Sound queueName)
    (hmsg : msg.mtype = .clientRequest) (hfull : ¬ server.clientsCounter < maxClients)
    (hfd : server.descriptors fd = none) :
    Within .undefined (server.msgRcv fd time msg queues) fun p =>
      p.1.clientsQueueIDS = server.clientsQueueIDS ∧
        p.1.clientsCounter = server.clientsCounter ∧
        (∀ d, p.1.descriptors d = server.descriptors d ∨ d = -1 ∧ p.1.descriptors d = none) ∧
        p.2.Sound queueName := by
  unfold Server.msgRcv
  rw [hmsg]
  dsimp only
  rw [if_neg hfull]
  cases hq : queues msg.mtext with
  | none =>
    simp only [mqOpen, hq]
    apply (mqSend_within _ _ hqueues (by simp [Msgbuf.Sound])).bind
    intro queues' hqueues'
    apply Within.ok
    refine ⟨rfl, rfl, ?_, hqueues'⟩
    intro d
    by_cases heq : d = -1
    · exact .inr ⟨heq, by simp [mqClose, heq]⟩
    · exact .inl (by simp [mqClose, heq])
  | some q =>
    simp only [mqOpen, hq]
    apply (mqSend_within _ _ hqueues (by simp [Msgbuf.Sound])).bind
    intro queues' hqueues'
    apply Within.ok
    refine ⟨rfl, rfl, ?_, hqueues'⟩
    intro d
    left
    by_cases heq : d = fd
    · simp [mqClose, heq, hfd]
    · simp [mqClose, heq]

/-- **A `ClientLogout`** closes the descriptor in the first entry that is not in use. -/
theorem msgRcv_logout (fd : ℤ) (time : Text) (hmsg : msg.mtype = .clientLogout) {d : ℤ}
    (hd : server.clientsQueueIDS[server.clientsCounter]? = some d) :
    server.msgRcv fd time msg queues = .ok (mqClose d server, queues) := by
  unfold Server.msgRcv
  rw [hmsg]
  dsimp only
  rw [(load_eq_ok_iff _ _).mpr hd]
  rfl

/-- **A `ClientLogout` while the table is full** reads past its end. -/
theorem msgRcv_logout_full (fd : ℤ) (time : Text) (hmsg : msg.mtype = .clientLogout)
    (hfull : ¬ server.clientsCounter < maxClients) :
    server.msgRcv fd time msg queues = .error .undefined := by
  unfold Server.msgRcv
  rw [hmsg]
  dsimp only
  unfold load
  rw [dif_neg (by omega)]
  rfl

/-- **Any other message** changes nothing but a queue. -/
theorem msgRcv_other_within (fd : ℤ) (time : Text) (hqueues : queues.Sound queueName)
    (hrequest : msg.mtype ≠ .clientRequest) (hlogout : msg.mtype ≠ .clientLogout)
    (hid : msg.clientID < maxClients) :
    Within .undefined (server.msgRcv fd time msg queues) fun p =>
      p.1 = server ∧ p.2.Sound queueName := by
  unfold Server.msgRcv
  cases hmsg : msg.mtype
  case clientRequest => exact absurd hmsg hrequest
  case clientLogout => exact absurd hmsg hlogout
  case serviceEcho | serviceUpper | serviceTime => exact respond_within _ hqueues hid
  case serviceTerm => exact Within.error (by simp)
  all_goals exact Within.ok ⟨rfl, hqueues⟩

end Server

/-! ## What has happened, and what should -/

/-- The server has accepted client `k`, with the id `id`. -/
def Accepted (l : List (Event κ)) (k : κ) (id : ℕ) : Prop :=
  ∃ msg, Event.handles k msg (some id) ∈ l

/-- The server has handled the `ClientLogout` of client `k`. -/
def LoggedOut (l : List (Event κ)) (k : κ) : Prop :=
  ∃ msg id, msg.mtype = .clientLogout ∧ Event.handles k msg id ∈ l

/-- **What a logout should do**: for an accepted client it closes the descriptor in the client's
own entry and no other, for any other client none that the server has for a client. -/
def LogsOut (l : List (Event κ)) (k : κ) (server server' : Server) : Prop :=
  (∀ id d, Accepted l k id → server.clientsQueueIDS[id]? = some d →
    ∀ fd, server'.descriptors fd = if fd = d then none else server.descriptors fd) ∧
  ((∀ id, ¬ Accepted l k id) → ∀ k' id d, Accepted l k' id →
    server.clientsQueueIDS[id]? = some d → server'.descriptors d = server.descriptors d)

/-- A step that does what the server should do with the message in its hands: a client that is
given an id has a descriptor from then on, and a logout does what it should. -/
def Event.Right (queueName : κ → SysVMessages.Text) (l : List (Event κ)) (s s' : State κ) :
    Event κ → Prop
  | .handles k msg id =>
    (∀ i, id = some i → ∃ d, s'.server.clientsQueueIDS[i]? = some d ∧
      s'.server.descriptors d = some (.queue (queueName k))) ∧
    (msg.mtype = .clientLogout → LogsOut l k s.server s'.server)
  | .faults _ _ => False
  | _ => True

/-- **When a logout does that**: the table is not full, and the descriptor `0` is the one in the
client's own entry, or is not open and neither is the client's; for a client that has not been
accepted, `0` is no open descriptor of an accepted one. -/
def HarmlessLogout (l : List (Event κ)) (k : κ) (server : Server) : Prop :=
  server.clientsCounter < maxClients ∧
  (∀ id d, Accepted l k id → server.clientsQueueIDS[id]? = some d →
    d = 0 ∨ server.descriptors 0 = none ∧ server.descriptors d = none) ∧
  ((∀ id, ¬ Accepted l k id) → ∀ k' id, Accepted l k' id →
    server.clientsQueueIDS[id]? = some 0 → server.descriptors 0 = none)

/-- A logout is harmless, and a client that is to be accepted still has its queue. -/
def Event.Harmless (l : List (Event κ)) (s : State κ) : Event κ → Prop
  | .handles k msg _ =>
    (msg.mtype = .clientRequest → s.server.clientsCounter < maxClients →
      s.clientQueue msg.mtext ≠ none) ∧
    (msg.mtype = .clientLogout → HarmlessLogout l k s.server)
  | .faults k msg => msg.mtype = .clientLogout → HarmlessLogout l k s.server
  | _ => True

/-- Closing `0` is right exactly when it is harmless. -/
theorem logsOut_iff {l : List (Event κ)} {k : κ} {server : Server}
    (hroom : server.clientsCounter < maxClients) :
    LogsOut l k server (mqClose 0 server) ↔ HarmlessLogout l k server := by
  unfold LogsOut HarmlessLogout
  simp only [hroom, true_and]
  apply and_congr
  · apply forall₂_congr
    intro id d
    apply imp_congr_right
    intro _
    apply imp_congr_right
    intro _
    constructor
    · intro h
      by_cases hd : d = 0
      · exact .inl hd
      · have h0 := h 0
        have hown := h d
        simp only [mqClose, Function.update_self, Function.update_of_ne hd, Ne.symm hd, if_true,
          if_false] at h0 hown
        exact .inr ⟨h0.symm, hown⟩
    · rintro (rfl | ⟨h0, hown⟩) fd
      · simp [mqClose, Function.update_apply]
      · by_cases hfd : fd = 0
        · subst hfd
          simp [mqClose, h0]
        · by_cases heq : fd = d
          · subst heq
            simp [mqClose, hfd, hown]
          · simp [mqClose, hfd, heq]
  · apply imp_congr_right
    intro _
    constructor
    · intro h k' id hk' hid
      have := h k' id 0 hk' hid
      simpa [mqClose] using this.symm
    · intro h k' id d hk' hid
      by_cases hd : d = 0
      · subst hd
        simp [mqClose, h k' id hk' hid]
      · simp [mqClose, hd]

section History

variable {l : List (Event κ)} {e : Event κ} {k : κ}

/-- What one more event says about who is accepted. -/
theorem accepted_concat {id : ℕ} :
    Accepted (l ++ [e]) k id ↔ Accepted l k id ∨ ∃ msg, e = .handles k msg (some id) := by
  unfold Accepted
  simp only [List.mem_append, List.mem_singleton, exists_or, eq_comm]

/-- What one more event says about who has logged out. -/
theorem loggedOut_concat :
    LoggedOut (l ++ [e]) k ↔
      LoggedOut l k ∨ ∃ msg id, msg.mtype = .clientLogout ∧ e = .handles k msg id := by
  unfold LoggedOut
  simp only [List.mem_append, List.mem_singleton, and_or_left, exists_or, eq_comm]

end History

/-! ## The order of a client's messages -/

/-- **The messages of client `k` that the server has not dealt with**: it asks once, before all
else, under the name of its queue, and logs out once, after all else. -/
structure Order (l : List (Event κ)) (k : κ) (queueName : SysVMessages.Text) (pc : ClientPc)
    (messages : List Msgbuf) : Prop where
  requestFirst : ∀ m ∈ messages.tail, m.mtype ≠ .clientRequest
  requestOnce : ∀ id, Accepted l k id → ∀ m ∈ messages, m.mtype ≠ .clientRequest
  requestName : ∀ m ∈ messages, m.mtype = .clientRequest → m.mtext = queueName
  logoutLast : ∀ m ∈ messages.dropLast, m.mtype ≠ .clientLogout
  logoutLeaves : ∀ m ∈ messages, m.mtype = .clientLogout → pc = .unlink ∨ pc = .exited
  loggedOut : LoggedOut l k → messages = [] ∧ (pc = .unlink ∨ pc = .exited)
  early : pc = .start ∨ pc = .request → messages = [] ∧ ∀ id, ¬ Accepted l k id

namespace Order

variable {l : List (Event κ)} {k : κ} {queueName : SysVMessages.Text} {pc pc' : ClientPc}
  {messages : List Msgbuf} {m : Msgbuf}

/-- The client goes on without a message. -/
theorem move (h : Order l k queueName pc messages)
    (hleft : pc = .unlink ∨ pc = .exited → pc' = .unlink ∨ pc' = .exited)
    (hearly : pc' = .start ∨ pc' = .request → pc = .start ∨ pc = .request) :
    Order l k queueName pc' messages where
  requestFirst := h.requestFirst
  requestOnce := h.requestOnce
  requestName := h.requestName
  logoutLast := h.logoutLast
  logoutLeaves m hm hlogout := hleft (h.logoutLeaves m hm hlogout)
  loggedOut hout := (h.loggedOut hout).imp_right hleft
  early hpc := h.early (hearly hpc)

/-- **The client sends one message**: a request comes first, a logout last. -/
theorem send (h : Order l k queueName pc messages) (hunlink : pc ≠ .unlink)
    (hexited : pc ≠ .exited) (hstart : pc' ≠ .start) (hnext : pc' ≠ .request)
    (hrequest : m.mtype = .clientRequest →
      messages = [] ∧ m.mtext = queueName ∧ ∀ id, ¬ Accepted l k id)
    (hlogout : m.mtype = .clientLogout → pc' = .unlink) :
    Order l k queueName pc' (messages ++ [m]) := by
  have hstay : ¬ (pc = .unlink ∨ pc = .exited) := by simp [hunlink, hexited]
  constructor
  · intro m' hm' heq
    cases messages with
    | nil => simp at hm'
    | cons m₀ rest =>
      rcases List.mem_append.mp hm' with hm' | hm'
      · exact h.requestFirst m' hm' heq
      · rw [List.mem_singleton.mp hm'] at heq
        simpa using (hrequest heq).1
  · intro id hid m' hm' heq
    rcases List.mem_append.mp hm' with hm' | hm'
    · exact h.requestOnce id hid m' hm' heq
    · rw [List.mem_singleton.mp hm'] at heq
      exact (hrequest heq).2.2 id hid
  · intro m' hm' heq
    rcases List.mem_append.mp hm' with hm' | hm'
    · exact h.requestName m' hm' heq
    · rw [List.mem_singleton.mp hm'] at heq ⊢
      exact (hrequest heq).2.1
  · intro m' hm' heq
    rw [List.dropLast_concat] at hm'
    exact hstay (h.logoutLeaves m' hm' heq)
  · intro m' hm' heq
    rcases List.mem_append.mp hm' with hm' | hm'
    · exact absurd (h.logoutLeaves m' hm' heq) hstay
    · rw [List.mem_singleton.mp hm'] at heq
      exact .inl (hlogout heq)
  · intro hout
    exact absurd (h.loggedOut hout).2 hstay
  · rintro (hpc | hpc)
    · exact absurd hpc hstart
    · exact absurd hpc hnext

/-- Something has happened that is not about this client. -/
theorem history (h : Order l k queueName pc messages) {l' : List (Event κ)}
    (haccepted : ∀ id, Accepted l' k id ↔ Accepted l k id)
    (hout : LoggedOut l' k ↔ LoggedOut l k) : Order l' k queueName pc messages where
  requestFirst := h.requestFirst
  requestOnce id hid := h.requestOnce id ((haccepted id).mp hid)
  requestName := h.requestName
  logoutLast := h.logoutLast
  logoutLeaves := h.logoutLeaves
  loggedOut ho := h.loggedOut (hout.mp ho)
  early hpc := by
    obtain ⟨hempty, hnone⟩ := h.early hpc
    exact ⟨hempty, fun id hid => hnone id ((haccepted id).mp hid)⟩

/-- The first of the client's messages is dealt with. -/
theorem rest (h : Order l k queueName pc (m :: messages)) : Order l k queueName pc messages where
  requestFirst m' hm' := h.requestFirst m' (List.mem_of_mem_tail hm')
  requestOnce id hid m' hm' := h.requestOnce id hid m' (List.mem_cons_of_mem _ hm')
  requestName m' hm' := h.requestName m' (List.mem_cons_of_mem _ hm')
  logoutLast m' hm' := by
    apply h.logoutLast
    cases messages with
    | nil => simp at hm'
    | cons m₁ rest => exact List.mem_cons_of_mem _ hm'
  logoutLeaves m' hm' := h.logoutLeaves m' (List.mem_cons_of_mem _ hm')
  loggedOut hout := by simpa using (h.loggedOut hout).1
  early hpc := by simpa using (h.early hpc).1

/-- **The server has handled the first of the client's messages.** -/
theorem handled (h : Order l k queueName pc (m :: messages)) (id : Option ℕ) :
    Order (l ++ [.handles k m id]) k queueName pc messages where
  requestFirst := h.rest.requestFirst
  requestOnce _ _ := h.requestFirst
  requestName := h.rest.requestName
  logoutLast := h.rest.logoutLast
  logoutLeaves := h.rest.logoutLeaves
  loggedOut hout := by
    rcases loggedOut_concat.mp hout with hout | ⟨msg, id', htype, heq⟩
    · exact h.rest.loggedOut hout
    · cases heq
      constructor
      · -- behind a logout there is nothing
        cases messages with
        | nil => rfl
        | cons m₁ rest => exact absurd htype (h.logoutLast m List.mem_cons_self)
      · exact h.logoutLeaves m List.mem_cons_self htype
  early hpc := by simpa using (h.early hpc).1

end Order

end SystemyOperacyjne.PosixMessages
