import SystemyOperacyjne.Model.SysVMessages

/-!
# Services over POSIX message queues

The server and any number of clients of `cw06/zad2`. The server holds a descriptor for every
client it has accepted, and a client that exits sends a `ClientLogout`, so that the server
closes its descriptor. One step is one system call of one process with what the process does
on its own around it; `mq_receive` has no step while the queue is empty, `mq_send` has none
while it is full. A client may be interrupted by `SIGINT` wherever it may wait.

A client is a process `k`; `queueName k` is the name `/queue%d` it makes from its process
number. A message in the server's queue stands with the process that sent it, which the
server does not see. As in `SysVMessages`, a word that is stored behind the array it is read into
does nothing that is seen here, but it has no room in a message.
-/

set_option autoImplicit false

namespace SystemyOperacyjne.PosixMessages

open Library
open SysVMessages (Text textSize upperCaseF)

/-- `#define MAX_CLIENTS 4`. -/
def maxClients : ℕ := 4

/-- `#define MAX_QUEUESIZE 10`. -/
def maxQueueSize : ℕ := 10

/-- `enum msgtype`.
SOURCE: cw06/zad2/infposix.h:10-20 -/
inductive MsgType
  | clientRequest
  | serverAccept
  | serverDenies
  | serverResponse
  | serviceEcho
  | serviceUpper
  | serviceTime
  | serviceTerm
  | clientLogout
  deriving DecidableEq, Repr

/-- `struct msgbuf`.
SOURCE: cw06/zad2/infposix.h:22-27 -/
structure Msgbuf where
  mtype : MsgType
  clientID : ℕ
  mtext : Text
  deriving DecidableEq, Repr

/-- What is sent of the text of a message: the array of `textSize` characters and the four behind it
that make the size of `struct msgbuf` a multiple of eight.
SOURCE: cw06/zad2/infposix.h:8 -/
def Msgbuf.held (m : Msgbuf) : Msgbuf :=
  { m with mtext := m.mtext.take (textSize + 4) }

/-- The type of a message is sent as it is. -/
@[simp] theorem Msgbuf.held_mtype (m : Msgbuf) : m.held.mtype = m.mtype := rfl

/-- A text that has room with its `0` is sent as it is. -/
theorem Msgbuf.held_mtext {m : Msgbuf} (h : m.mtext.length < textSize) :
    m.held.mtext = m.mtext :=
  List.take_of_length_le (by omega)

/-- A message that the server answers. -/
def Msgbuf.AwaitsAnswer (m : Msgbuf) : Prop :=
  m.mtype ≠ .serviceTerm ∧ m.mtype ≠ .clientLogout

instance (m : Msgbuf) : Decidable m.AwaitsAnswer :=
  inferInstanceAs (Decidable (_ ∧ _))

/-- The program points of a client. -/
inductive ClientPc
  | start  -- `mq_open` of the server's queue and of its own
  | request  -- `msg_snd` of the `ClientRequest`
  | receiveFirst  -- the `msg_rcv` after it
  | command  -- the first `scanf` of the loop
  | receive  -- the `msg_rcv` at the end of the loop
  | logout  -- `msg_snd` in `exitHandler`
  | unlink  -- the rest of `exitHandler`
  | exited
  deriving DecidableEq, Repr

/-- A client: the global `clientID`, and `msg` of `main`, whose text is the word that has been read
into it, also where the array is too short for it. -/
structure Client where
  pc : ClientPc
  clientID : ℕ
  msg : Msgbuf

/-- What a descriptor of the server is open for. -/
inductive File
  | other  -- its own queue, and what it was started with
  | queue (name : Text)
  deriving DecidableEq, Repr

/-- The server's variables, and its descriptors. -/
structure Server where
  clientsQueueIDS : Vector ℤ maxClients
  clientsCounter : ℕ
  descriptors : ℤ → Option File

/-- The program points of the server; the message in its hands stands with its sender. -/
inductive ServerPc (κ : Type)
  | receive  -- `mq_receive`
  | handle (sender : κ) (msg : Msgbuf)  -- the `switch`
  | exited
  | undefined  -- an access outside `clientsQueueIDS`
  deriving DecidableEq, Repr

/-- The clients' queues, by their names; `none` where there is none of that name. -/
abbrev Queues := Text → Option (List Msgbuf)

/-- The processes and the queues; `linked` is whether the server's queue still has a name. -/
structure State (κ : Type) where
  client : κ → Client
  clientQueue : Queues
  serverPc : ServerPc κ
  server : Server
  serverQueue : List (κ × Msgbuf)
  linked : Bool

/-- Why the server does not go on. -/
inductive Stop
  | exit  -- `exit(0)`
  | undefined
  | blocked  -- in `mq_send`
  deriving DecidableEq, Repr

/-! ## Queues and descriptors -/

/-- `mq_open(name, O_WRONLY)` of the server, where `fd` is a descriptor that is not open. -/
def mqOpen (fd : ℤ) (name : Text) (queues : Queues) (server : Server) : ℤ × Server :=
  match queues name with
  | none => (-1, server)
  | some _ =>
    (fd, { server with
      descriptors := Function.update server.descriptors fd (some (.queue name)) })

/-- `mq_close`. -/
def mqClose (fd : ℤ) (server : Server) : Server :=
  { server with descriptors := Function.update server.descriptors fd none }

/-- `mq_send` of the server, whose result it does not look at. -/
def mqSend (fd : ℤ) (msg : Msgbuf) (server : Server) (queues : Queues) : Except Stop Queues :=
  match server.descriptors fd with
  | some (.queue name) =>
    match queues name with
    | some q =>
      if q.length < maxQueueSize then
        .ok (Function.update queues name (some (q ++ [msg])))
      else .error .blocked
    | none => .ok queues  -- unlinked: nobody will read it
  | _ => .ok queues

/-! ## The server -/

/-- The answer to a service: `text` goes to the client with the message's id. -/
def respond (msg : Msgbuf) (text : Text) (server : Server) (queues : Queues) :
    Except Stop (Server × Queues) := do
  let msg := { msg with mtype := .serverResponse, mtext := text }
  let fd ← load .undefined server.clientsQueueIDS msg.clientID
  let queues ← mqSend fd msg server queues
  return (server, queues)

/-- `msg_rcv` of the server once it has received `msg`; `fd` is what `mq_open` returns if it
can, and `time` what `getTimeF` writes.
SOURCE: cw06/zad2/server.c:58-110 -/
def Server.msgRcv (fd : ℤ) (time : Text) (msg : Msgbuf) (server : Server) (queues : Queues) :
    Except Stop (Server × Queues) :=
  match msg.mtype with
  | .clientRequest =>
    if server.clientsCounter < maxClients then do
      let (clientQueueID, server) := mqOpen fd msg.mtext queues server
      let table ← store .undefined server.clientsQueueIDS server.clientsCounter clientQueueID
      let msg := { msg with mtype := .serverAccept, clientID := server.clientsCounter }
      let queues ← mqSend clientQueueID msg server queues
      return ({ server with
        clientsQueueIDS := table
        clientsCounter := server.clientsCounter + 1 }, queues)
    else do
      let msg := { msg with mtype := .serverDenies }
      let (clientQueueID, server) := mqOpen fd msg.mtext queues server
      let queues ← mqSend clientQueueID msg server queues
      return (mqClose clientQueueID server, queues)
  | .serviceEcho => respond msg msg.mtext server queues
  | .serviceUpper => respond msg (upperCaseF msg.mtext) server queues
  | .serviceTime => respond msg time server queues
  | .serviceTerm => .error .exit
  | .clientLogout => do
    -- the counter is the index, not `msg.clientID`
    let clientQueueID ← load .undefined server.clientsQueueIDS server.clientsCounter
    return (mqClose clientQueueID server, queues)
  | .serverAccept | .serverDenies | .serverResponse => .ok (server, queues)

/-- What has happened; `id` is the id that the server has given away, if it has. -/
inductive Event (κ : Type)
  | opens (k : κ)  -- a client has opened its queue, or found no server
  | sends (k : κ) (msg : Msgbuf)
  | receives (k : κ) (msg : Msgbuf)
  | rejects (k : κ)  -- "No such command"
  | interrupted (k : κ)
  | exits (k : κ)
  | takes (k : κ) (msg : Msgbuf)
  | handles (k : κ) (msg : Msgbuf) (id : Option ℕ)
  | stops (k : κ) (msg : Msgbuf)
  | faults (k : κ) (msg : Msgbuf)
  deriving DecidableEq, Repr

variable {κ : Type}

/-- The id that the server is about to give away. -/
def Server.newID (server : Server) (msg : Msgbuf) : Option ℕ :=
  if msg.mtype = .clientRequest ∧ server.clientsCounter < maxClients then
    some server.clientsCounter
  else none

/-- One step of the server: `mq_receive`, or the rest of `msg_rcv`. The end of the process
closes what `exitHandler` has not closed.
SOURCE: cw06/zad2/server.c:112-120, cw06/zad2/server.c:18-24 -/
def serverMain (fd : ℤ) (time : Text) (s : State κ) : Option (Event κ × State κ) :=
  match s.serverPc with
  | .receive =>
    match s.serverQueue with
    | (k, msg) :: rest =>
      some (.takes k msg, { s with serverPc := .handle k msg, serverQueue := rest })
    | [] => none
  | .handle k msg =>
    if 0 ≤ fd ∧ s.server.descriptors fd = none then
      match s.server.msgRcv fd time msg s.clientQueue with
      | .ok (server, queues) =>
        some (.handles k msg (s.server.newID msg), { s with
          serverPc := .receive
          server := server
          clientQueue := queues })
      | .error .exit =>
        some (.stops k msg, { s with
          serverPc := .exited
          server := { s.server with descriptors := fun _ => none }
          linked := false })
      | .error .undefined => some (.faults k msg, { s with serverPc := .undefined })
      | .error .blocked => none
    else none
  | .exited | .undefined => none

/-- **What a step of the server can be.** -/
theorem serverMain_cases {fd : ℤ} {time : Text} {s s' : State κ} {e : Event κ}
    (h : serverMain fd time s = some (e, s')) :
    (∃ k msg rest, s.serverPc = .receive ∧ s.serverQueue = (k, msg) :: rest ∧
      e = .takes k msg ∧ s' = { s with serverPc := .handle k msg, serverQueue := rest }) ∨
    ∃ k msg, s.serverPc = .handle k msg ∧ (0 ≤ fd ∧ s.server.descriptors fd = none) ∧
      ((∃ server queues, s.server.msgRcv fd time msg s.clientQueue = .ok (server, queues) ∧
        e = .handles k msg (s.server.newID msg) ∧
        s' = { s with serverPc := .receive, server := server, clientQueue := queues }) ∨
      (s.server.msgRcv fd time msg s.clientQueue = .error .exit ∧ e = .stops k msg ∧
        s' = { s with
          serverPc := .exited
          server := { s.server with descriptors := fun _ => none }
          linked := false }) ∨
      (s.server.msgRcv fd time msg s.clientQueue = .error .undefined ∧ e = .faults k msg ∧
        s' = { s with serverPc := .undefined })) := by
  unfold serverMain at h
  split at h
  · next hpc =>
    split at h
    · next k msg rest hqueue =>
      cases h
      exact .inl ⟨k, msg, rest, hpc, hqueue, rfl, rfl⟩
    · cases h
  · next k msg hpc =>
    split_ifs at h with hfd
    right
    refine ⟨k, msg, hpc, hfd, ?_⟩
    split at h
    · next server queues hrcv =>
      cases h
      exact .inl ⟨server, queues, hrcv, rfl, rfl⟩
    · next hrcv =>
      cases h
      exact .inr (.inl ⟨hrcv, rfl, rfl⟩)
    · next hrcv =>
      cases h
      exact .inr (.inr ⟨hrcv, rfl, rfl⟩)
    · cases h
  · cases h
  · cases h

/-! ## A client -/

variable [DecidableEq κ]

/-- Client `k` goes on as `c`. -/
def State.setClient (s : State κ) (k : κ) (c : Client) : State κ :=
  { s with client := Function.update s.client k c }

/-- `msg_snd`: the message goes out with the client's id, and the client goes on as `c`.
SOURCE: cw06/zad2/client.c:35-41 -/
def msgSnd (k : κ) (msg : Msgbuf) (c : Client) (s : State κ) : Option (Event κ × State κ) :=
  let sent := { msg with clientID := c.clientID }
  if s.serverQueue.length < maxQueueSize then
    some (.sends k sent, { s.setClient k c with serverQueue := s.serverQueue ++ [(k, sent)] })
  else none

/-- `msg_rcv` of a client.
SOURCE: cw06/zad2/client.c:52-69 -/
def msgRcv (queueName : Text) (k : κ) (s : State κ) : Option (Event κ × State κ) :=
  let c := s.client k
  match s.clientQueue queueName with
  | some (msg :: rest) =>
    let s := { s with clientQueue := Function.update s.clientQueue queueName (some rest) }
    match msg.mtype with
    | .serverAccept =>
      some (.receives k msg, s.setClient k { c with pc := .command, clientID := msg.clientID })
    | .serverDenies => some (.receives k msg, s.setClient k { c with pc := .logout })
    | _ => some (.receives k msg, s.setClient k { c with pc := .command })
  | _ => none

/-- One turn of the loop, up to the message: `cmd` and `word` are what `scanf` reads.
SOURCE: cw06/zad2/client.c:101-125 -/
def command (k : κ) (cmd word : Text) (s : State κ) : Option (Event κ × State κ) :=
  let c := s.client k
  if cmd = "echo".toList then
    let msg := { c.msg with mtype := .serviceEcho, mtext := word }
    msgSnd k msg.held { c with pc := .receive, msg := msg } s
  else if cmd = "upper".toList then
    let msg := { c.msg with mtype := .serviceUpper, mtext := word }
    msgSnd k msg.held { c with pc := .receive, msg := msg } s
  else if cmd = "time".toList then
    let msg := { c.msg with mtype := .serviceTime }
    msgSnd k msg.held { c with pc := .receive, msg := msg } s
  else if cmd = "term".toList then
    let msg := { c.msg with mtype := .serviceTerm }
    msgSnd k msg.held { c with pc := .logout, msg := msg } s
  else
    some (.rejects k, s)

/-- One step of client `k`. In `exitHandler` the text of `msg` is not set; it is `word` here.
SOURCE: cw06/zad2/client.c:43-50, cw06/zad2/client.c:71-128 -/
def clientMain (queueName : Text) (k : κ) (cmd word : Text) (s : State κ) :
    Option (Event κ × State κ) :=
  let c := s.client k
  match c.pc with
  | .start =>
    if s.linked then
      some (.opens k, { s.setClient k { c with pc := .request } with
        clientQueue := Function.update s.clientQueue queueName (some []) })
    else
      some (.opens k, s.setClient k { c with pc := .exited })
  | .request =>
    let msg := { c.msg with mtype := .clientRequest, mtext := queueName }
    msgSnd k msg { c with pc := .receiveFirst, msg := msg } s
  | .receiveFirst | .receive => msgRcv queueName k s
  | .command => command k cmd word s
  | .logout =>
    msgSnd k { mtype := .clientLogout, clientID := 0, mtext := word } { c with pc := .unlink } s
  | .unlink =>
    some (.exits k, { s.setClient k { c with pc := .exited } with
      clientQueue := Function.update s.clientQueue queueName none })
  | .exited => none

/-- `signalHandler` of a client, in one of the calls that wait.
SOURCE: cw06/zad2/client.c:17-19 -/
def interrupt (k : κ) (s : State κ) : Option (Event κ × State κ) :=
  let c := s.client k
  match c.pc with
  | .request | .receiveFirst | .command | .receive =>
    some (.interrupted k, s.setClient k { c with pc := .logout })
  | _ => none

/-! ## All of them -/

/-- Which process is to step, with what it reads or is given. -/
inductive Choice (κ : Type)
  | client (k : κ) (cmd word : Text)
  | interrupt (k : κ)
  | server (fd : ℤ) (time : Text)
  deriving DecidableEq, Repr

/-- The words that a client reads have room in their arrays: `cmd`, and what follows `echo` and
`upper`. -/
def Choice.Fits (s : State κ) : Choice κ → Prop
  | .client k cmd word =>
    (s.client k).pc = .command → cmd.length < textSize ∧
      (cmd = "echo".toList ∨ cmd = "upper".toList → word.length < textSize)
  | .interrupt _ | .server _ _ => True

omit [DecidableEq κ] in
instance (s : State κ) : (c : Choice κ) → Decidable (c.Fits s)
  | .client _ _ _ => inferInstanceAs (Decidable (_ → _))
  | .interrupt _ | .server _ _ => inferInstanceAs (Decidable True)

/-- One step of the processes. -/
def next (queueName : κ → Text) (s : State κ) : Choice κ → Option (Event κ × State κ)
  | .client k cmd word => clientMain (queueName k) k cmd word s
  | .interrupt k => interrupt k s
  | .server fd time => serverMain fd time s

/-- The server waits for its first message and no client has started. A client's `msg` may
hold anything. The server was started with its standard input open, so that its own queue has
another descriptor.
SOURCE: cw06/zad2/server.c:12-15, cw06/zad2/client.c:10-13 -/
structure Start (queueName : κ → Text) (s : State κ) : Prop where
  client : ∀ k, (s.client k).pc = .start ∧ (s.client k).clientID = 0
  clientQueue : ∀ k, s.clientQueue (queueName k) = none
  serverPc : s.serverPc = .receive
  table : s.server.clientsQueueIDS = .replicate maxClients 0
  counter : s.server.clientsCounter = 0
  descriptors : ∀ fd name, s.server.descriptors fd ≠ some (.queue name)
  standardInput : s.server.descriptors 0 = some .other
  serverQueue : s.serverQueue = []
  linked : s.linked = true

/-- A start state, where the clients' `msg` are all `msg`; the server has the descriptors of
a terminal and, as number `3`, that of its own queue. -/
def startState (msg : Msgbuf) : State κ where
  client _ := { pc := .start, clientID := 0, msg := msg }
  clientQueue _ := none
  serverPc := .receive
  server :=
    { clientsQueueIDS := .replicate maxClients 0
      clientsCounter := 0
      descriptors := fun fd => if 0 ≤ fd ∧ fd ≤ 3 then some .other else none }
  serverQueue := []
  linked := true

omit [DecidableEq κ] in
/-- It is a start state. -/
theorem start_startState (queueName : κ → Text) (msg : Msgbuf) :
    Start queueName (startState msg) where
  client _ := ⟨rfl, rfl⟩
  clientQueue _ := rfl
  serverPc := rfl
  table := rfl
  counter := rfl
  descriptors fd name := by
    simp only [startState]
    split <;> simp
  standardInput := rfl
  serverQueue := rfl
  linked := rfl

/-- The server and its clients, in any order of steps. -/
def program (queueName : κ → Text) : Machine (State κ) (Choice κ) (Event κ) where
  init := Start queueName
  next := next queueName

/-- The same, as long as the words that the clients read have room in their arrays. -/
def fitting (queueName : κ → Text) : Machine (State κ) (Choice κ) (Event κ) :=
  (program queueName).restricted Choice.Fits

end SystemyOperacyjne.PosixMessages
