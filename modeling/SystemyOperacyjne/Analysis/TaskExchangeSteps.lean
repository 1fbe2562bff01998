import SystemyOperacyjne.Analysis.RegistryBounds
import SystemyOperacyjne.Model.TaskExchange

/-!
# What the steps of the exchange do

`Moved` lists the steps of the server and its clients with all they change; `moved_of_next`
reads it off the code once, and everything about runs is proved from it. A step works on the
registry by one call at most, so the bounds of the registry are kept as they are for calls.
-/

set_option autoImplicit false

namespace SystemyOperacyjne.ComputeServer

open Library

variable {ν : Type} {evaluate : Operation → ν → ν → ν} {s s' : Exchange ν} {fd : Fd}

/-! ## The functions -/

/-- A function of the registry that the server survives. -/
theorem attempt_eq_ok {α : Type} {x : Except Failure α} {a : α} :
    attempt x = .ok a ↔ x = .ok a := by
  cases x with
  | error e => simp [attempt, Except.mapError]
  | ok b => simp [attempt, Except.mapError]

/-- What a computation that returns gives, as an option. -/
theorem toOption_eq_some {α ε : Type} {x : Except ε α} {a : α} :
    x.toOption = some a ↔ x = .ok a := by
  cases x with
  | error e => simp [Except.toOption]
  | ok b => simp [Except.toOption]

/-- The message is behind the others of its connection. -/
def Exchange.send (s : Exchange ν) (fd : Fd) (msg : Message ν) : Exchange ν :=
  { s with inbox := Function.update s.inbox fd (s.inbox fd ++ [msg]) }

/-- A write to a descriptor that is not open writes nothing. -/
theorem write_closed {msg : Message ν} (h : fd ∉ s.server.registry.openFds) :
    write fd msg s = .ok (false, s) := by
  unfold write
  rw [if_pos h]

/-- What a write to an open connection does is for the system to say. -/
theorem write_open (msg : Message ν) (h : fd ∈ s.server.registry.openFds) :
    write fd msg s =
      match s.outlet fd with
      | .takes => .ok (true, s.send fd msg)
      | .refuses => .ok (false, s)
      | .raises => .error .sigpipe := by
  unfold write
  rw [if_neg (not_not.mpr h)]
  rfl

/-- What `write` does when the server survives it. -/
theorem write_ok {msg : Message ν} {written : Bool} (h : write fd msg s = .ok (written, s')) :
    (written = true ↔ s.Takes fd) ∧ s' = if s.Takes fd then s.send fd msg else s := by
  unfold Exchange.Takes
  by_cases hopen : fd ∈ s.server.registry.openFds
  · rw [write_open msg hopen] at h
    split at h
    · next houtlet =>
      cases h
      simp [hopen, houtlet]
    · next houtlet =>
      cases h
      simp [houtlet]
    · cases h
  · rw [write_closed hopen] at h
    cases h
    simp [hopen]

/-- A round of pings that the server survives leaves one with each connection that takes it. -/
theorem writePings_ok {fds : List Fd} (h : writePings fds s = .ok s') :
    s' = { s with
      inbox := (fds.filter (fun fd => s.Takes fd)).foldl
        (fun inbox fd => Function.update inbox fd (inbox fd ++ [s.pingMsg])) s.inbox } := by
  induction fds generalizing s with
  | nil =>
    cases h
    rfl
  | cons fd fds ih =>
    unfold writePings at h
    obtain ⟨⟨written, t⟩, hwrite, hrest⟩ := bind_eq_ok_iff.mp h
    obtain ⟨-, rfl⟩ := write_ok hwrite
    have hrest := ih hrest
    by_cases htakes : s.Takes fd
    · rw [if_pos htakes] at hrest
      rw [List.filter_cons_of_pos (by simpa using htakes), List.foldl_cons]
      exact hrest
    · rw [if_neg htakes] at hrest
      rw [List.filter_cons_of_neg (by simpa using htakes)]
      exact hrest

/-- The line `serverTask` prints when it receives a message. -/
def lineOf (msg : Message ν) : Option (Line ν) :=
  match msg.type with
  | .msg => some .notAnAnswer
  | .answer => some (.taskAnswer msg.counter msg.answer)
  | .hello => some (.connected msg.name)
  | .ping => none
  | .exit => none

/-- The call on the registry that a message from `fd` makes `serverTask` do. -/
def callOf (fd : Fd) (msg : Message ν) : Option RegistryCall :=
  match msg.type with
  | .ping => some (.ping fd)
  | .exit => some (.close fd)
  | _ => none

/-- A call on the registry, or none. -/
def Registry.Becomes (r : Registry) (c : Option RegistryCall) (r' : Registry) : Prop :=
  match c with
  | none => r' = r
  | some c => call r c = .ok r'

/-- What the `switch` of `serverTask` does to a message. -/
theorem receive_ok {msg : Message ν} {i k : ℕ} {t t' : Server ν}
    (h : receive fd msg i t = .ok (k, t')) :
    ∃ registry, t.registry.Becomes (callOf fd msg) registry ∧
      t' = { t with registry, printed := t.printed ++ (lineOf msg).toList } := by
  unfold receive at h
  unfold callOf lineOf
  cases htype : msg.type with
  | msg =>
    rw [htype] at h
    cases h
    exact ⟨_, rfl, rfl⟩
  | answer =>
    rw [htype] at h
    cases h
    exact ⟨_, rfl, rfl⟩
  | hello =>
    rw [htype] at h
    cases h
    exact ⟨_, rfl, rfl⟩
  | ping =>
    rw [htype] at h
    obtain ⟨⟨n, registry⟩, hcount, hs⟩ := bind_eq_ok_iff.mp h
    cases hs
    refine ⟨registry, ?_, ?_⟩
    · show (countPing fd 0 t.registry >>= fun p => pure p.2) = .ok registry
      rw [hcount]
      rfl
    · simp
  | exit =>
    rw [htype] at h
    obtain ⟨registry, hclose, hs⟩ := bind_eq_ok_iff.mp h
    cases hs
    exact ⟨registry, hclose, by simp⟩

/-! ## The steps -/

/-- The registry is in bounds, and no descriptor is negative. -/
structure Exchange.Sane (s : Exchange ν) : Prop where
  fits : s.server.registry.Fits
  nonneg : ∀ fd ∈ s.server.registry.openFds, 0 ≤ fd

/-- The message of a task. -/
def Exchange.taskMsg (s : Exchange ν) (t : Task ν) : Message ν :=
  { s.commandMsg with
    oper := t.oper, counter := s.taskCounter, num1 := t.num1, num2 := t.num2, type := .msg }

/-- The steps, and all they change. -/
inductive Moved (evaluate : Operation → ν → ν → ν) (s : Exchange ν) :
    Event ν → Exchange ν → Prop
  | connect {fd : Fd} {net : Bool} {hello : Message ν} {registry : Registry} (hfd : 0 ≤ fd)
      (hcall : call s.server.registry (.add fd) = .ok registry) :
      Moved evaluate s (.connect fd) { s with
        server := { s.server with
          registry
          sockets := Function.update s.server.sockets fd ⟨[{ hello with type := .hello }], .again⟩ }
        inbox := Function.update s.inbox fd []
        left := s.left.erase fd
        net := if net then insert fd s.net else s.net.erase fd
        outlet := Function.update s.outlet fd .takes
        armed := insert fd s.armed }
  | leave {fd : Fd} : Moved evaluate s (.leave fd) (s.leave fd)
  | turn {fd : Fd} {outlet : Outlet} :
      Moved evaluate s (.turn fd) { s with outlet := Function.update s.outlet fd outlet }
  | lose {fd : Fd} : Moved evaluate s (.lose fd) { s with armed := s.armed.erase fd }
  | close {fd : Fd} {registry : Registry}
      (hcall : call s.server.registry (.close fd) = .ok registry) :
      Moved evaluate s (.close fd) { s with server := { s.server with registry } }
  | hear {fd : Fd} {msg : Message ν} {rest : List (Message ν)} {registry : Registry}
      (hmsg : (s.server.sockets fd).waiting = msg :: rest)
      (hcall : s.server.registry.Becomes (callOf fd msg) registry) :
      Moved evaluate s (.hear fd) { s with
        server := { s.server with
          registry
          printed := s.server.printed ++ (lineOf msg).toList
          sockets := Function.update s.server.sockets fd
            { s.server.sockets fd with waiting := rest } }
        armed := if rest = [] then s.armed.erase fd else s.armed }
  | reply {fd : Fd} {msg : Message ν} {rest : List (Message ν)}
      (hmsg : s.inbox fd = msg :: rest) :
      Moved evaluate s (.reply fd) (clientOne evaluate fd msg rest s)
  | issue {task : Task ν} {fd : Fd} :
      Moved evaluate s (.issue task fd) { s.send fd (s.taskMsg task) with
        commandMsg := s.taskMsg task
        taskCounter := s.taskCounter + 1 }
  | ping {fds : List Fd} {registry : Registry}
      (hcall : call s.server.registry .pingRound = .ok registry) :
      Moved evaluate s (.ping fds) { s with
        server := { s.server with registry }
        inbox := fds.foldl
          (fun inbox fd => Function.update inbox fd (inbox fd ++ [s.pingMsg])) s.inbox }

/-- What `commandline` has done before it writes to the client picked. -/
def Exchange.prepared (s : Exchange ν) (t : Task ν) (client : Fd) : Exchange ν :=
  if client = -1
    then { s with
      commandMsg := { s.commandMsg with oper := t.oper }, reports := s.reports ++ ["No clients"] }
    else { s with commandMsg := s.taskMsg t }

/-- The connections are as they were. -/
theorem Exchange.prepared_server (s : Exchange ν) (t : Task ν) (client : Fd) :
    (s.prepared t client).server = s.server ∧ (s.prepared t client).outlet = s.outlet := by
  unfold Exchange.prepared
  split <;> exact ⟨rfl, rfl⟩

/-- The end of `commandline`, the write. -/
theorem commandline_eq {oper : Operation} {num1 num2 : ν} {rand : ℕ}
    (hpick : randClient rand s.server.registry = .ok fd) :
    commandline oper num1 num2 rand s =
      write fd (s.prepared ⟨oper, num1, num2⟩ fd).commandMsg (s.prepared ⟨oper, num1, num2⟩ fd) >>=
        fun (written, t) =>
          if written then pure (fd, { t with taskCounter := t.taskCounter + 1 })
          else .error (.failure (.exitError "write")) := by
  unfold commandline
  rw [hpick]
  rfl

/-- `commandline` ends the server when what it writes to the client it picks is not taken. So it
does when there is no client to pick. -/
theorem commandline_fails (oper : Operation) (num1 num2 : ν) {rand : ℕ}
    (hpick : randClient rand s.server.registry = .ok fd) (htakes : ¬ s.Takes fd) :
    ∃ stop, commandline oper num1 num2 rand s = .error stop := by
  obtain ⟨hserver, houtlet⟩ := s.prepared_server ⟨oper, num1, num2⟩ fd
  rw [commandline_eq hpick]
  cases hwrite : write fd (s.prepared ⟨oper, num1, num2⟩ fd).commandMsg
      (s.prepared ⟨oper, num1, num2⟩ fd) with
  | error stop => exact ⟨stop, rfl⟩
  | ok q =>
    obtain ⟨written, t⟩ := q
    have hnot : ¬ (written = true) := by
      rw [(write_ok hwrite).1]
      unfold Exchange.Takes at htakes ⊢
      rwa [hserver, houtlet]
    exact ⟨_, if_neg hnot⟩

/-- `commandline` sends the task when it is taken. -/
theorem commandline_sends {oper : Operation} {num1 num2 : ν} {rand : ℕ}
    (hpick : randClient rand s.server.registry = .ok fd) (hnone : fd ≠ -1) (htakes : s.Takes fd) :
    commandline oper num1 num2 rand s = .ok (fd,
      { s.send fd (s.taskMsg ⟨oper, num1, num2⟩) with
        commandMsg := s.taskMsg ⟨oper, num1, num2⟩
        taskCounter := s.taskCounter + 1 }) := by
  obtain ⟨hopen, houtlet⟩ := htakes
  let t : Exchange ν := { s with commandMsg := s.taskMsg ⟨oper, num1, num2⟩ }
  have hwrite := write_open (s := t) (s.taskMsg ⟨oper, num1, num2⟩) hopen
  rw [show t.outlet fd = .takes from houtlet] at hwrite
  rw [commandline_eq hpick]
  unfold Exchange.prepared
  rw [if_neg hnone]
  show write fd (s.taskMsg ⟨oper, num1, num2⟩) t >>= _ = _
  rw [hwrite]
  rfl

/-- **What `commandline` does on a line that the server survives**: it sends the task to the
client that `rand()` falls on, whose connection takes it. -/
theorem commandline_ok_iff (hs : s.Sane) {oper : Operation} {num1 num2 : ν} {rand : ℕ} :
    commandline oper num1 num2 rand s = .ok (fd, s') ↔
      s.server.registry.registered[rand % s.server.registry.registered.length]? = some fd ∧
      s.Takes fd ∧
      s' = { s.send fd (s.taskMsg ⟨oper, num1, num2⟩) with
        commandMsg := s.taskMsg ⟨oper, num1, num2⟩
        taskCounter := s.taskCounter + 1 } := by
  have hnonneg : ∀ x, s.Takes x → x ≠ -1 := by
    rintro x ⟨hx, -⟩ rfl
    exact absurd (hs.nonneg _ hx) (by decide)
  have hpick := randClient_ok hs.fits rand
  constructor
  · intro h
    cases hx : s.server.registry.registered[rand % s.server.registry.registered.length]? with
    | none =>
      rw [hx] at hpick
      obtain ⟨stop, hstop⟩ :=
        commandline_fails oper num1 num2 hpick fun htakes =>
          hnonneg _ htakes rfl
      rw [hstop] at h
      cases h
    | some x =>
      rw [hx] at hpick
      by_cases htakes : s.Takes x
      · rw [commandline_sends hpick (hnonneg x htakes) htakes] at h
        cases h
        exact ⟨rfl, htakes, rfl⟩
      · obtain ⟨stop, hstop⟩ :=
          commandline_fails oper num1 num2 hpick htakes
        rw [hstop] at h
        cases h
  · rintro ⟨hx, htakes, rfl⟩
    rw [hx] at hpick
    exact commandline_sends hpick (hnonneg fd htakes) htakes

/-- **The steps of the machine are these.** -/
theorem moved_of_next (hs : s.Sane) {c : Choice ν} {e : Event ν}
    (h : Exchange.next evaluate s c = some (e, s')) : Moved evaluate s e s' := by
  cases c with
  | accept fd net hello =>
    simp only [Exchange.next] at h
    split at h
    · next hfd =>
      obtain ⟨t, ht, heq⟩ := Option.bind_eq_some_iff.mp h
      cases heq
      rw [toOption_eq_some] at ht
      obtain ⟨server, haccept, heq⟩ := bind_eq_ok_iff.mp ht
      rw [attempt_eq_ok] at haccept
      obtain ⟨registry, hadd, hserver⟩ := bind_eq_ok_iff.mp haccept
      cases hserver
      cases heq
      exact .connect hfd.1 hadd
    · cases h
  | leave fd =>
    simp only [Exchange.next] at h
    split at h
    · cases h
      exact .leave
    · cases h
  | turn fd outlet =>
    simp only [Exchange.next] at h
    split at h
    · cases h
      exact .turn
    · cases h
  | lose fd =>
    simp only [Exchange.next] at h
    split at h
    · cases h
      exact .lose
    · cases h
  | close fd =>
    simp only [Exchange.next] at h
    split at h
    · obtain ⟨t, ht, heq⟩ := Option.bind_eq_some_iff.mp h
      cases heq
      rw [toOption_eq_some] at ht
      obtain ⟨⟨k, server⟩, hdrop, heq⟩ := bind_eq_ok_iff.mp ht
      rw [attempt_eq_ok] at hdrop
      obtain ⟨registry, hclose, hserver⟩ := bind_eq_ok_iff.mp hdrop
      cases hserver
      cases heq
      exact .close hclose
    · cases h
  | receive fd =>
    simp only [Exchange.next] at h
    split at h
    · cases h
    · next msg rest hmsg =>
      split at h
      · obtain ⟨t, ht, heq⟩ := Option.bind_eq_some_iff.mp h
        cases heq
        rw [toOption_eq_some] at ht
        obtain ⟨⟨k, server⟩, hreceive, heq⟩ := bind_eq_ok_iff.mp ht
        rw [attempt_eq_ok] at hreceive
        obtain ⟨registry, hcall, hserver⟩ := receive_ok hreceive
        cases hserver
        cases heq
        exact .hear hmsg hcall
      · cases h
  | client fd =>
    simp only [Exchange.next] at h
    split at h
    · cases h
    · next msg rest hmsg =>
      split at h
      · cases h
        exact .reply hmsg
      · cases h
  | command oper num1 num2 rand =>
    simp only [Exchange.next] at h
    obtain ⟨⟨fd, t⟩, ht, heq⟩ := Option.bind_eq_some_iff.mp h
    cases heq
    rw [toOption_eq_some] at ht
    obtain ⟨-, -, rfl⟩ := (commandline_ok_iff hs).mp ht
    exact .issue
  | pingRound =>
    simp only [Exchange.next] at h
    obtain ⟨⟨fds, t⟩, ht, heq⟩ := Option.bind_eq_some_iff.mp h
    cases heq
    rw [toOption_eq_some] at ht
    obtain ⟨⟨fds', registry⟩, hloop, ht⟩ := bind_eq_ok_iff.mp ht
    obtain ⟨t', hpings, heq⟩ := bind_eq_ok_iff.mp ht
    cases heq
    rw [attempt_eq_ok] at hloop
    have hcall : call s.server.registry .pingRound = .ok registry := by
      show (pingLoop 0 s.server.registry >>= fun p => pure p.2) = .ok registry
      rw [hloop]
      rfl
    have hopenFds : registry.openFds = s.server.registry.openFds := by
      obtain ⟨pongs, hok, -⟩ := pingLoop_ok hs.fits 0
      rw [hok] at hloop
      cases hloop
      rfl
    have hsame : ∀ fd, Exchange.Takes { s with server := { s.server with registry } } fd ↔
        s.Takes fd := by
      intro fd
      unfold Exchange.Takes
      rw [hopenFds]
    rw [writePings_ok hpings]
    simp only [hsame]
    exact .ping hcall

/-- Calls do not open a descriptor other than the one that is added. -/
theorem call_openFds {r r' : Registry} (hr : r.Fits) {c : RegistryCall} (h : call r c = .ok r')
    {x : Fd} (hx : x ∈ r'.openFds) : x ∈ r.openFds ∨ c = .add x := by
  cases c with
  | add fd =>
    by_cases hfull : r.Full
    · rw [call_add_full hfull fd] at h
      cases h
    · obtain ⟨fds, hadd, -⟩ := call_add_ok hr hfull fd
      rw [hadd] at h
      cases h
      rcases Finset.mem_insert.mp hx with rfl | hx
      · exact .inr rfl
      · exact .inl hx
  | close fd => exact .inl ((closeLoop_ok_iff.mp h).openFds_subset hx)
  | pingRound =>
    obtain ⟨pongs, hround, -⟩ := call_pingRound_ok hr
    rw [hround] at h
    cases h
    exact .inl hx
  | pongCheck =>
    rw [call_pongCheck_ok hr] at h
    cases h
    exact .inl hx
  | ping fd =>
    obtain ⟨⟨k, s⟩, hcount, hs⟩ := bind_eq_ok_iff.mp h
    cases hs
    rw [(countPing_registered hcount).2] at hx
    exact .inl hx
  | pick rand =>
    rw [call_pick_ok hr rand] at h
    cases h
    exact .inl hx

/-- A call keeps the bounds, and the descriptors that are not negative. -/
theorem sane_of_call (hs : s.Sane) {c : RegistryCall}
    (hcall : call s.server.registry c = .ok s'.server.registry)
    (hadd : ∀ fd, c = .add fd → 0 ≤ fd) : s'.Sane := by
  constructor
  · exact call_fits hs.fits hcall
  · intro x hx
    rcases call_openFds hs.fits hcall hx with hx | rfl
    · exact hs.nonneg x hx
    · exact hadd x rfl

/-- **What is kept**: the registry is in bounds, and no descriptor is negative. -/
theorem sane_invariant (evaluate : Operation → ν → ν → ν) :
    System.Invariant (exchange evaluate).system Exchange.Sane := by
  constructor
  · rintro s ⟨commandMsg, pingMsg, rfl⟩
    constructor
    · exact Registry.empty_fits
    · intro fd hfd
      cases hfd
  · rintro s e s' hs ⟨c, hstep⟩
    cases moved_of_next hs hstep with
    | connect hfd hcall =>
      apply sane_of_call hs hcall
      rintro x ⟨rfl⟩
      exact hfd
    | leave => exact ⟨hs.fits, hs.nonneg⟩
    | turn => exact ⟨hs.fits, hs.nonneg⟩
    | lose => exact ⟨hs.fits, hs.nonneg⟩
    | close hcall => exact sane_of_call hs hcall (by simp)
    | @hear fd msg rest registry hmsg hcall =>
      cases hc : callOf fd msg with
      | none =>
        rw [hc] at hcall
        cases hcall
        exact ⟨hs.fits, hs.nonneg⟩
      | some c =>
        rw [hc] at hcall
        change call s.server.registry c = .ok registry at hcall
        apply sane_of_call hs hcall
        rintro x rfl
        unfold callOf at hc
        split at hc <;> cases hc
    | @reply fd msg rest hmsg =>
      unfold clientOne
      dsimp only
      split <;> exact ⟨hs.fits, hs.nonneg⟩
    | issue => exact ⟨hs.fits, hs.nonneg⟩
    | ping hcall => exact sane_of_call hs hcall (by simp)

end SystemyOperacyjne.ComputeServer
