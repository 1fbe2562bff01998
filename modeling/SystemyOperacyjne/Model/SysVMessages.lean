import SystemyOperacyjne.Library.CheckedArray
import SystemyOperacyjne.Library.Transition
import Mathlib.Logic.Function.Basic

/-!
# Services over System V message queues

The server and any number of clients of `cw06/zad1`: the server takes requests from its own
queue and answers on the client's. One step is one system call of one process with what the
process does on its own around it; `msgrcv` has no step while the queue is empty. The queues
are large enough: a process that waits in `msgsnd` for space is one that has not taken its
step yet. No process is interrupted by `SIGINT`.

A client reads words of any length into arrays of `TEXTSIZE` characters. What is behind an array
is not in the model, and a word that is stored there does nothing that is seen here, but a
message has room for no more than the array holds (`Msgbuf.held`).

A client is a process `k`; `queueID k` is what `msgget(IPC_PRIVATE, 0600)` returns to it.
-/

set_option autoImplicit false

namespace SystemyOperacyjne.SysVMessages

open Library

/-- `#define MAX_CLIENTS 4`. -/
def maxClients : ℕ := 4

/-- `#define TEXTSIZE 100`. -/
def textSize : ℕ := 100

/-- A C string: the characters before the `0`. -/
abbrev Text := List Char

/-- `enum msgtype`.
SOURCE: cw06/zad1/inf.h:11-20 -/
inductive MsgType
  | clientRequest
  | serverAccept
  | serverDenies
  | serverResponse
  | serviceEcho
  | serviceUpper
  | serviceTime
  | serviceTerm
  deriving DecidableEq, Repr

/-- `struct msgbuf`.
SOURCE: cw06/zad1/inf.h:22-28 -/
structure Msgbuf (κ : Type) where
  mtype : MsgType
  clientPID : κ
  clientID : ℕ
  clientQueueID : ℤ
  mtext : Text
  deriving DecidableEq, Repr

/-- What is sent of a message: the text as far as the array holds it, without its `0` if that has
no room. -/
def Msgbuf.held {κ : Type} (m : Msgbuf κ) : Msgbuf κ :=
  { m with mtext := m.mtext.take textSize }

/-- The type of a message is sent as it is. -/
@[simp] theorem Msgbuf.held_mtype {κ : Type} (m : Msgbuf κ) : m.held.mtype = m.mtype := rfl

/-- So is the sender. -/
@[simp] theorem Msgbuf.held_clientPID {κ : Type} (m : Msgbuf κ) :
    m.held.clientPID = m.clientPID := rfl

/-- So is the sender's queue. -/
@[simp] theorem Msgbuf.held_clientQueueID {κ : Type} (m : Msgbuf κ) :
    m.held.clientQueueID = m.clientQueueID := rfl

/-- A text that has room with its `0` is sent as it is. -/
theorem Msgbuf.held_mtext {κ : Type} {m : Msgbuf κ} (h : m.mtext.length < textSize) :
    m.held.mtext = m.mtext :=
  List.take_of_length_le (Nat.le_of_lt h)

/-- A message that the server answers. -/
def Msgbuf.AwaitsAnswer {κ : Type} (m : Msgbuf κ) : Prop :=
  m.mtype ≠ .serviceTerm

instance {κ : Type} (m : Msgbuf κ) : Decidable m.AwaitsAnswer :=
  inferInstanceAs (Decidable (_ ≠ _))

/-- The program points of a client. -/
inductive ClientPc
  | start  -- the two calls of `msgget`
  | request  -- `msg_snd` of the `ClientRequest`
  | receiveFirst  -- the `msg_rcv` after it
  | command  -- the first `scanf` of the loop
  | receive  -- the `msg_rcv` at the end of the loop
  | exit (code : ℤ)  -- in `exit`, before `exitHandler`
  | exited (code : ℤ)
  deriving DecidableEq, Repr

/-- A client: the global `clientID`, and `msg` of `main`, whose text is the word that has been read
into it, also where the array is too short for it. -/
structure Client (κ : Type) where
  pc : ClientPc
  clientID : ℕ
  msg : Msgbuf κ

/-- The program points of the server. -/
inductive ServerPc (κ : Type)
  | receive  -- `msgrcv`
  | handle (msg : Msgbuf κ)  -- the `switch`
  | exited
  | undefined  -- an access outside `clientsQueueIDS`
  deriving DecidableEq, Repr

/-- The server's variables. -/
structure Server where
  clientsQueueIDS : Vector ℤ maxClients
  clientsCounter : ℕ
  deriving DecidableEq

/-- The clients' queues, by their identifiers; `none` where there is none. -/
abbrev Queues (κ : Type) := ℤ → Option (List (Msgbuf κ))

/-- The processes and the queues. -/
structure State (κ : Type) where
  client : κ → Client κ
  clientQueue : Queues κ
  serverPc : ServerPc κ
  server : Server
  serverQueue : Option (List (Msgbuf κ))

variable {κ : Type}

/-- `msgsnd`, whose result the server does not look at: a queue that does not exist gets
nothing. -/
def msgsnd (queues : Queues κ) (id : ℤ) (msg : Msgbuf κ) : Queues κ :=
  match queues id with
  | none => queues
  | some q => Function.update queues id (some (q ++ [msg]))

/-! ## The server -/

/-- `upperCaseF`.
SOURCE: cw06/zad1/server.c:25-30 -/
def upperCaseF (string : Text) : Text :=
  string.map Char.toUpper

/-- Why the server does not go on. -/
inductive Stop
  | exit  -- `exit(0)`
  | undefined
  deriving DecidableEq, Repr

/-- The answer to a service: `text` goes to the queue of the client with the message's id. -/
def respond (msg : Msgbuf κ) (text : Text) (server : Server) (queues : Queues κ) :
    Except Stop (Server × Queues κ) := do
  let msg := { msg with mtype := .serverResponse, mtext := text }
  let id ← load .undefined server.clientsQueueIDS msg.clientID
  return (server, msgsnd queues id msg)

/-- `msg_rcv` of the server once it has received `msg`; `time` is what `getTimeF` writes.
SOURCE: cw06/zad1/server.c:40-84 -/
def Server.msgRcv (time : Text) (msg : Msgbuf κ) (server : Server) (queues : Queues κ) :
    Except Stop (Server × Queues κ) :=
  match msg.mtype with
  | .clientRequest =>
    if server.clientsCounter < maxClients then do
      let table ← store .undefined server.clientsQueueIDS server.clientsCounter msg.clientQueueID
      let msg := { msg with mtype := .serverAccept, clientID := server.clientsCounter }
      let queues := msgsnd queues msg.clientQueueID msg
      return ({ clientsQueueIDS := table, clientsCounter := server.clientsCounter + 1 }, queues)
    else
      let msg := { msg with mtype := .serverDenies }
      return (server, msgsnd queues msg.clientQueueID msg)
  | .serviceEcho => respond msg msg.mtext server queues
  | .serviceUpper => respond msg (upperCaseF msg.mtext) server queues
  | .serviceTime => respond msg time server queues
  | .serviceTerm => .error .exit
  | .serverAccept | .serverDenies | .serverResponse => .ok (server, queues)

/-- What has happened. -/
inductive Event (κ : Type)
  | opens (k : κ)  -- a client has opened its queue, or found no server
  | sends (k : κ) (msg : Msgbuf κ)
  | fails (k : κ)  -- "Could not connect with server. Stop."
  | receives (k : κ) (msg : Msgbuf κ)
  | rejects (k : κ)  -- "No such command"
  | exits (k : κ)
  | takes (msg : Msgbuf κ)
  | answers (msg : Msgbuf κ)
  | stops (msg : Msgbuf κ)
  | faults (msg : Msgbuf κ)
  deriving DecidableEq, Repr

/-- One step of the server: `msgrcv`, or the rest of `msg_rcv`.
SOURCE: cw06/zad1/server.c:86-94, cw06/zad1/server.c:17-19 -/
def serverMain (time : Text) (s : State κ) : Option (Event κ × State κ) :=
  match s.serverPc with
  | .receive =>
    match s.serverQueue with
    | some (msg :: rest) =>
      some (.takes msg, { s with serverPc := .handle msg, serverQueue := some rest })
    | _ => none
  | .handle msg =>
    match s.server.msgRcv time msg s.clientQueue with
    | .ok (server, queues) =>
      some (.answers msg, { s with
        serverPc := .receive
        server := server
        clientQueue := queues })
    | .error .exit => some (.stops msg, { s with serverPc := .exited, serverQueue := none })
    | .error .undefined => some (.faults msg, { s with serverPc := .undefined })
  | .exited | .undefined => none

/-- **What a step of the server can be.** -/
theorem serverMain_cases {time : Text} {s s' : State κ} {e : Event κ}
    (h : serverMain time s = some (e, s')) :
    (∃ msg rest, s.serverPc = .receive ∧ s.serverQueue = some (msg :: rest) ∧
      e = .takes msg ∧ s' = { s with serverPc := .handle msg, serverQueue := some rest }) ∨
    ∃ msg, s.serverPc = .handle msg ∧
      ((∃ server queues, s.server.msgRcv time msg s.clientQueue = .ok (server, queues) ∧
        e = .answers msg ∧
        s' = { s with serverPc := .receive, server := server, clientQueue := queues }) ∨
      (s.server.msgRcv time msg s.clientQueue = .error .exit ∧ e = .stops msg ∧
        s' = { s with serverPc := .exited, serverQueue := none }) ∨
      (s.server.msgRcv time msg s.clientQueue = .error .undefined ∧ e = .faults msg ∧
        s' = { s with serverPc := .undefined })) := by
  unfold serverMain at h
  split at h
  · next hpc =>
    split at h
    · next msg rest hqueue =>
      cases h
      exact .inl ⟨msg, rest, hpc, hqueue, rfl, rfl⟩
    · cases h
  · next msg hpc =>
    right
    refine ⟨msg, hpc, ?_⟩
    split at h
    · next server queues hrcv =>
      cases h
      exact .inl ⟨server, queues, hrcv, rfl, rfl⟩
    · next hrcv =>
      cases h
      exact .inr (.inl ⟨hrcv, rfl, rfl⟩)
    · next hrcv =>
      cases h
      exact .inr (.inr ⟨hrcv, rfl, rfl⟩)
  · cases h
  · cases h

/-! ## A client -/

variable [DecidableEq κ]

/-- Client `k` goes on as `c`. -/
def State.setClient (s : State κ) (k : κ) (c : Client κ) : State κ :=
  { s with client := Function.update s.client k c }

/-- `msg_snd`: the message goes out with the client's id, and the client goes on at `next`;
`main` keeps its own copy of the message.
SOURCE: cw06/zad1/client.c:22-28 -/
def msgSnd (k : κ) (msg : Msgbuf κ) (next : ClientPc) (s : State κ) : Event κ × State κ :=
  let c := s.client k
  let sent := { msg.held with clientID := c.clientID }
  match s.serverQueue with
  | some q =>
    (.sends k sent, { s.setClient k { c with pc := next, msg := msg } with
      serverQueue := some (q ++ [sent]) })
  | none => (.fails k, s.setClient k { c with pc := .exit 1, msg := msg })

/-- `msg_rcv` of a client.
SOURCE: cw06/zad1/client.c:30-46 -/
def msgRcv (queueID : ℤ) (k : κ) (s : State κ) : Option (Event κ × State κ) :=
  let c := s.client k
  match s.clientQueue queueID with
  | some (msg :: rest) =>
    let s := { s with clientQueue := Function.update s.clientQueue queueID (some rest) }
    match msg.mtype with
    | .serverAccept =>
      some (.receives k msg, s.setClient k { c with pc := .command, clientID := msg.clientID })
    | .serverDenies => some (.receives k msg, s.setClient k { c with pc := .exit 1 })
    | _ => some (.receives k msg, s.setClient k { c with pc := .command })
  | _ => none

/-- One turn of the loop, up to the message: `cmd` and `word` are what `scanf` reads.
SOURCE: cw06/zad1/client.c:82-105 -/
def command (k : κ) (cmd word : Text) (s : State κ) : Event κ × State κ :=
  let msg := (s.client k).msg
  if cmd = "echo".toList then
    msgSnd k { msg with mtype := .serviceEcho, mtext := word } .receive s
  else if cmd = "upper".toList then
    msgSnd k { msg with mtype := .serviceUpper, mtext := word } .receive s
  else if cmd = "time".toList then
    msgSnd k { msg with mtype := .serviceTime } .receive s
  else if cmd = "term".toList then
    msgSnd k { msg with mtype := .serviceTerm } (.exit 0) s
  else
    (.rejects k, s)

/-- One step of client `k`.
SOURCE: cw06/zad1/client.c:48-108, cw06/zad1/client.c:14-16 -/
def clientMain (queueID : ℤ) (k : κ) (cmd word : Text) (s : State κ) :
    Option (Event κ × State κ) :=
  let c := s.client k
  match c.pc with
  | .start =>
    match s.serverQueue with
    | some _ =>
      some (.opens k, { s.setClient k { c with pc := .request } with
        clientQueue := Function.update s.clientQueue queueID (some []) })
    | none => some (.opens k, s.setClient k { c with pc := .exited (-1) })
  | .request =>
    let msg := { c.msg with mtype := .clientRequest, clientPID := k, clientQueueID := queueID }
    some (msgSnd k msg .receiveFirst s)
  | .receiveFirst | .receive => msgRcv queueID k s
  | .command => some (command k cmd word s)
  | .exit code =>
    some (.exits k, { s.setClient k { c with pc := .exited code } with
      clientQueue := Function.update s.clientQueue queueID none })
  | .exited _ => none

/-! ## All of them -/

/-- Which process is to step, with what it reads. -/
inductive Choice (κ : Type)
  | client (k : κ) (cmd word : Text)
  | server (time : Text)
  deriving DecidableEq, Repr

/-- The words that a client reads have room in their arrays: `cmd`, and what follows `echo` and
`upper`. -/
def Choice.Fits (s : State κ) : Choice κ → Prop
  | .client k cmd word =>
    (s.client k).pc = .command → cmd.length < textSize ∧
      (cmd = "echo".toList ∨ cmd = "upper".toList → word.length < textSize)
  | .server _ => True

omit [DecidableEq κ] in
instance (s : State κ) : (c : Choice κ) → Decidable (c.Fits s)
  | .client _ _ _ => inferInstanceAs (Decidable (_ → _))
  | .server _ => inferInstanceAs (Decidable True)

/-- One step of the processes. -/
def next (queueID : κ → ℤ) (s : State κ) : Choice κ → Option (Event κ × State κ)
  | .client k cmd word => clientMain (queueID k) k cmd word s
  | .server time => serverMain time s

/-- The server waits for its first message and no client has started. A client's `msg` may
hold anything.
SOURCE: cw06/zad1/server.c:13-15, cw06/zad1/client.c:10-12 -/
structure Start (queueID : κ → ℤ) (s : State κ) : Prop where
  client : ∀ k, (s.client k).pc = .start ∧ (s.client k).clientID = 0
  clientQueue : ∀ k, s.clientQueue (queueID k) = none
  serverPc : s.serverPc = .receive
  server : s.server = { clientsQueueIDS := .replicate maxClients 0, clientsCounter := 0 }
  serverQueue : s.serverQueue = some []

/-- A start state, where the clients' `msg` are all `msg`. -/
def startState (msg : Msgbuf κ) : State κ where
  client _ := { pc := .start, clientID := 0, msg := msg }
  clientQueue _ := none
  serverPc := .receive
  server := { clientsQueueIDS := .replicate maxClients 0, clientsCounter := 0 }
  serverQueue := some []

omit [DecidableEq κ] in
/-- It is a start state. -/
theorem start_startState (queueID : κ → ℤ) (msg : Msgbuf κ) : Start queueID (startState msg) :=
  ⟨fun _ => ⟨rfl, rfl⟩, fun _ => rfl, rfl, rfl, rfl⟩

/-- The server and its clients, in any order of steps. -/
def program (queueID : κ → ℤ) : Machine (State κ) (Choice κ) (Event κ) where
  init := Start queueID
  next := next queueID

/-- The same, as long as the words that the clients read have room in their arrays. -/
def fitting (queueID : κ → ℤ) : Machine (State κ) (Choice κ) (Event κ) :=
  (program queueID).restricted Choice.Fits

end SystemyOperacyjne.SysVMessages
