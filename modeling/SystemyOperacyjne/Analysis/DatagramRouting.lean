import SystemyOperacyjne.Analysis.TaskExchangeSteps
import SystemyOperacyjne.Model.DatagramServer

/-!
# Where the datagrams go

The server registers, for the client whose `HELLO` it receives, the socket the `HELLO` came in
on, and sends everything to its own path. Since it receives from one socket only, all entries
of the registry are this socket. So a run is as it should be only as long as one client at most
has been registered and no task or ping has been asked for while there was one.
-/

set_option autoImplicit false

namespace SystemyOperacyjne.DatagramServer

open Library ComputeServer

variable {ν κ : Type} [DecidableEq κ] {n : Sockets κ} {evaluate : Operation → ν → ν → ν}
  {s s' : Hub ν κ} {events : List (Event κ)}

/-! ## What is wanted -/

/-- A run is as it should be: different clients have different entries, and every message that
is sent for an entry is delivered to a client the entry stands for. -/
structure Routed (events : List (Event κ)) : Prop where
  distinguishable : ∀ c c' fd fd', .registered (.of c) fd ∈ events →
    .registered (.of c') fd' ∈ events → c ≠ c' → fd ≠ fd'
  delivered : ∀ sent, .sends sent ∈ events → ∀ fd party, (fd, party) ∈ sent →
    ∃ c, party = some (.client c) ∧ .registered (.of c) fd ∈ events

/-- There is no client that a task or a `PING` could be for: `rand_client` finds none for the
command line, and none is registered when a round of pings begins. -/
def Hub.Quiet (s : Hub ν κ) : Choice ν κ → Prop
  | .command _ _ _ rand => randClient rand s.registry = .ok (-1)
  | .pingRound => s.registry.registered = []
  | _ => True

/-- At most one client has been registered, and no command line has been entered and no round of
pings has begun while there was one. -/
structure Silent (n : Sockets κ) (evaluate : Operation → ν → ν → ν) (s₀ : Hub ν κ)
    (choices : List (Choice ν κ)) (events : List (Event κ)) : Prop where
  one : ∀ c c' fd fd', .registered (.of c) fd ∈ events → .registered (.of c') fd' ∈ events →
    c = c'
  quiet : (hub n evaluate).Along Hub.Quiet s₀ choices

/-! ## What the code does -/

/-- What is sent to the server's path is not delivered to a client. -/
theorem sendto_path {fd : Fd} {msg : Message ν} {party : Party κ}
    (h : sendto n fd .path msg s = some (party, s')) : party = .server ∧
      s'.receiving = s.receiving := by
  unfold sendto at h
  dsimp only at h
  split at h
  · cases h
  · cases h
    exact ⟨rfl, rfl⟩

/-- **No task is delivered to a client.** -/
theorem commandline_sent {oper : Operation} {num1 num2 : ν} {rand : ℕ} {sent : List (Sent κ)}
    (h : commandline n oper num1 num2 rand s = .ok (sent, s')) :
    (∀ p ∈ sent, ∀ c, p.2 ≠ some (.client c)) ∧ s'.receiving = s.receiving := by
  unfold commandline at h
  obtain ⟨client, -, h⟩ := bind_eq_ok_iff.mp h
  have hreceiving : ∀ t : Hub ν κ, (if client = -1
      then { s with
        commandMsg := { s.commandMsg with oper }, reports := s.reports ++ ["No clients"] }
      else { s with commandMsg :=
        { s.commandMsg with oper, counter := s.taskCounter, num1, num2, type := .msg } }) = t →
      t.receiving = s.receiving := by
    rintro t rfl
    split <;> rfl
  generalize (if client = -1 then _ else _) = t at h hreceiving
  specialize hreceiving t rfl
  dsimp only at h
  cases hsend : sendto n n.unSock .path t.commandMsg t with
  | some result =>
    obtain ⟨party, t'⟩ := result
    rw [hsend] at h
    cases h
    obtain ⟨rfl, ht'⟩ := sendto_path hsend
    refine ⟨?_, ht'.trans hreceiving⟩
    intro p hp c hc
    split at hp
    · cases hp
    · rw [List.mem_singleton.mp hp] at hc
      cases hc
  | none =>
    rw [hsend] at h
    cases h
    refine ⟨?_, hreceiving⟩
    intro p hp c hc
    split at hp
    · cases hp
    · rw [List.mem_singleton.mp hp] at hc
      cases hc

/-- **No `PING` is delivered to a client.** -/
theorem sendPings_sent (fds : List Fd) (s : Hub ν κ) :
    (∀ p ∈ (sendPings n fds s).1, ∀ c, p.2 ≠ some (.client c)) ∧
      (sendPings n fds s).2.receiving = s.receiving := by
  induction fds generalizing s with
  | nil =>
    constructor
    · intro p hp
      cases hp
    · rfl
  | cons fd fds ih =>
    unfold sendPings
    cases hsend : sendto n fd .path s.pingMsg s with
    | none =>
      constructor
      · intro p hp c hc
        rw [List.mem_singleton.mp hp] at hc
        cases hc
      · rfl
    | some result =>
      obtain ⟨party, t⟩ := result
      obtain ⟨rfl, ht⟩ := sendto_path hsend
      obtain ⟨hsent, hreceiving⟩ := ih t
      constructor
      · intro p hp c hc
        rcases List.mem_cons.mp hp with rfl | hp
        · cases hc
        · exact hsent p hp c hc
      · exact hreceiving.trans ht

/-- Nor is any in a whole round. -/
theorem pingTask_sent {sent : List (Sent κ)} (h : pingTask n s = .ok (sent, s')) :
    (∀ p ∈ sent, ∀ c, p.2 ≠ some (.client c)) ∧ s'.receiving = s.receiving := by
  unfold pingTask at h
  obtain ⟨⟨fds, registry⟩, -, h⟩ := bind_eq_ok_iff.mp h
  have hsent := sendPings_sent (n := n) fds { s with registry }
  rw [Except.ok.inj h] at hsent
  exact hsent

omit [DecidableEq κ] in
/-- A message received leaves the server at its socket. -/
theorem receive_receiving {fd : Fd} {msg : Message ν} (h : receive fd msg s = .ok s') :
    s'.receiving = s.receiving := by
  unfold receive at h
  split at h
  · cases h
    rfl
  · cases h
    rfl
  · obtain ⟨p, -, h⟩ := bind_eq_ok_iff.mp h
    cases h
    rfl
  · obtain ⟨p, -, h⟩ := bind_eq_ok_iff.mp h
    cases h
    rfl
  · obtain ⟨p, -, h⟩ := bind_eq_ok_iff.mp h
    cases h
    rfl

/-- What a step shows, beside the socket the server is at. -/
def Event.Fits (before after : Option Fd) : Event κ → Prop
  | .registered _ fd => after = some fd ∧ (before = none ∨ before = some fd)
  | .sends sent => (∀ p ∈ sent, ∀ c, p.2 ≠ some (.client c)) ∧ after = before
  | .silent => before = none ∨ after = before

/-- **One step**: a client is registered as the socket the server is at and stays at, and what
is sent is not delivered to a client. -/
theorem next_fits {c : Choice ν κ} {e : Event κ} (h : s.next n evaluate c = some (e, s')) :
    e.Fits s.receiving s'.receiving := by
  cases c with
  | hello c body =>
    simp only [Hub.next] at h
    split at h
    · cases h
    · cases h
      exact .inr rfl
  | client c =>
    simp only [Hub.next] at h
    split at h
    · cases h
    · cases h
      exact .inr rfl
  | receive fd =>
    simp only [Hub.next] at h
    split at h
    · next hat =>
      split at h
      · cases h
      · split at h
        · obtain ⟨t, ht, heq⟩ := Option.bind_eq_some_iff.mp h
          cases heq
          rw [toOption_eq_some] at ht
          have hreceiving := receive_receiving ht
          split
          · exact ⟨hreceiving, hat.2⟩
          · rcases hat.2 with hnone | hsome
            · exact .inl hnone
            · exact .inr (hreceiving.trans hsome.symm)
        · cases h
          exact .inr rfl
    · cases h
  | command oper num1 num2 rand =>
    simp only [Hub.next] at h
    split at h
    · obtain ⟨⟨sent, t⟩, ht, heq⟩ := Option.bind_eq_some_iff.mp h
      cases heq
      rw [toOption_eq_some] at ht
      exact commandline_sent ht
    · cases h
  | pingRound =>
    simp only [Hub.next] at h
    split at h
    · obtain ⟨⟨sent, t⟩, ht, heq⟩ := Option.bind_eq_some_iff.mp h
      cases heq
      rw [toOption_eq_some] at ht
      exact pingTask_sent ht
    · cases h

/-- A round of pings has nothing to send just where no client is registered. -/
theorem pingLoop_nil_iff {r r' : Registry} {fds : List Fd} (h : pingLoop 0 r = .ok (fds, r')) :
    fds = [] ↔ r.registered = [] := by
  unfold pingLoop at h
  split at h
  · rename_i hsize
    obtain ⟨pongs, -, h⟩ := bind_eq_ok_iff.mp h
    obtain ⟨fd, -, h⟩ := bind_eq_ok_iff.mp h
    obtain ⟨⟨rest, r''⟩, -, h⟩ := bind_eq_ok_iff.mp h
    cases h
    refine iff_of_false (List.cons_ne_nil _ _) ?_
    intro hnil
    have hlength := congrArg List.length hnil
    unfold Registry.registered at hlength
    rw [List.length_take, Vector.length_toList, List.length_nil] at hlength
    have hmax : MAXCLIENTS = 16 := rfl
    omega
  · rename_i hsize
    cases h
    refine iff_of_true rfl ?_
    unfold Registry.registered
    rw [show (r.clientFdsSize + 1).toNat = 0 by omega, List.take_zero]

/-- A round of pings sends nothing just where no client is registered. -/
theorem pingTask_nil_iff {sent : List (Sent κ)} (h : pingTask n s = .ok (sent, s')) :
    sent = [] ↔ s.registry.registered = [] := by
  unfold pingTask at h
  obtain ⟨⟨fds, r'⟩, hloop, h⟩ := bind_eq_ok_iff.mp h
  rw [← pingLoop_nil_iff hloop]
  have heq := Except.ok.inj h
  cases fds with
  | nil =>
    cases heq
    exact iff_of_true rfl rfl
  | cons fd fds =>
    unfold sendPings at heq
    split at heq
    · cases heq
      exact iff_of_false (List.cons_ne_nil _ _) (List.cons_ne_nil _ _)
    · cases heq
      exact iff_of_false (List.cons_ne_nil _ _) (List.cons_ne_nil _ _)

/-- A command line sends nothing for an entry just where `rand_client` finds no client. -/
theorem commandline_nil_iff {oper : Operation} {num1 num2 : ν} {rand : ℕ} {sent : List (Sent κ)}
    (h : commandline n oper num1 num2 rand s = .ok (sent, s')) :
    sent = [] ↔ randClient rand s.registry = .ok (-1) := by
  unfold commandline at h
  obtain ⟨client, hpick, h⟩ := bind_eq_ok_iff.mp h
  rw [hpick, Except.ok.injEq]
  dsimp only at h
  by_cases hnone : client = -1
  · refine iff_of_true ?_ hnone
    split at h
    · cases h
      exact if_pos hnone
    · cases h
      exact if_pos hnone
  · refine iff_of_false ?_ hnone
    split at h
    · cases h
      rw [if_neg hnone]
      exact List.cons_ne_nil _ _
    · cases h
      rw [if_neg hnone]
      exact List.cons_ne_nil _ _

/-- Nothing is sent for an entry. -/
def Event.Nothing : Event κ → Prop
  | .sends sent => sent = []
  | _ => True

/-- **Nothing is sent for an entry** just where there is no client that it could be for. -/
theorem quiet_iff {c : Choice ν κ} {e : Event κ} (h : s.next n evaluate c = some (e, s')) :
    s.Quiet c ↔ e.Nothing := by
  cases c with
  | hello c body =>
    simp only [Hub.next] at h
    split at h
    · cases h
    · cases h
      exact Iff.rfl
  | client c =>
    simp only [Hub.next] at h
    split at h
    · cases h
    · cases h
      exact Iff.rfl
  | receive fd =>
    refine iff_of_true trivial ?_
    cases e with
    | sends sent =>
      simp only [Hub.next] at h
      split at h
      · split at h
        · cases h
        · split at h
          · obtain ⟨t, ht, heq⟩ := Option.bind_eq_some_iff.mp h
            split at heq <;> cases heq
          · cases h
      · cases h
    | registered sender fd => trivial
    | silent => trivial
  | command oper num1 num2 rand =>
    simp only [Hub.next] at h
    split at h
    · obtain ⟨⟨sent, t⟩, ht, heq⟩ := Option.bind_eq_some_iff.mp h
      cases heq
      rw [toOption_eq_some] at ht
      exact (commandline_nil_iff ht).symm
    · cases h
  | pingRound =>
    simp only [Hub.next] at h
    split at h
    · obtain ⟨⟨sent, t⟩, ht, heq⟩ := Option.bind_eq_some_iff.mp h
      cases heq
      rw [toOption_eq_some] at ht
      exact (pingTask_nil_iff ht).symm
    · cases h

/-! ## Whole runs -/

/-- What all events of a run have in common. -/
structure Alike (events : List (Event κ)) (s : Hub ν κ) : Prop where
  entries : ∀ sender fd, .registered sender fd ∈ events → s.receiving = some fd
  astray : ∀ sent, .sends sent ∈ events → ∀ p ∈ sent, ∀ c, p.2 ≠ some (.client c)

/-- **Every run**: all clients are registered as one socket, and nothing that is sent is
delivered to a client. -/
theorem alike_run {s₀ : Hub ν κ} (hrun : (hub n evaluate).system.Run s₀ events s) :
    Alike events s := by
  apply hrun.history_induction (I := fun events s => Alike events s)
  · rintro events s e s' h ⟨c, hstep⟩
    have hfits := next_fits hstep
    constructor
    · intro sender fd hmem
      rcases List.mem_append.mp hmem with hmem | hmem
      · have hat := h.entries sender fd hmem
        cases e with
        | registered sender' fd' =>
          obtain ⟨hafter, hnone | hsome⟩ := hfits
          · rw [hat] at hnone
            cases hnone
          · rw [hafter, ← hsome, hat]
        | sends sent => rw [hfits.2, hat]
        | silent =>
          rcases hfits with hnone | hsame
          · rw [hat] at hnone
            cases hnone
          · rw [hsame, hat]
      · rw [← List.mem_singleton.mp hmem] at hfits
        exact hfits.1
    · intro sent hmem
      rcases List.mem_append.mp hmem with hmem | hmem
      · exact h.astray sent hmem
      · rw [← List.mem_singleton.mp hmem] at hfits
        exact hfits.1
  · constructor <;> simp

/-- **When the datagrams go where they should**: as long as one client at most has been
registered, and no command line has been entered and no round of pings begun while there was one,
and no longer.
SOURCE: cw10/zad2/server.c:87-127, cw10/zad2/server.c:163-250 -/
theorem routed_iff {s₀ : Hub ν κ} {choices : List (Choice ν κ)}
    (hexec : (hub n evaluate).exec s₀ choices = some (events, s)) :
    Routed events ↔ Silent n evaluate s₀ choices events := by
  have h := alike_run (Machine.exec_run hexec)
  have hquiet := Machine.along_iff (M := hub n evaluate)
    (fun _ _ _ _ hnext => quiet_iff hnext) hexec
  constructor
  · intro hrouted
    constructor
    · intro c c' fd fd' hc hc'
      by_contra hne
      have hfd := (h.entries _ _ hc).symm.trans (h.entries _ _ hc')
      exact hrouted.distinguishable c c' fd fd' hc hc' hne (Option.some.inj hfd)
    · rw [hquiet]
      intro e hmem
      cases e with
      | sends sent =>
        apply List.eq_nil_iff_forall_not_mem.mpr
        rintro ⟨fd, party⟩ hp
        obtain ⟨c, hparty, -⟩ := hrouted.delivered sent hmem fd party hp
        exact h.astray sent hmem _ hp c hparty
      | registered sender fd => trivial
      | silent => trivial
  · intro hsilent
    constructor
    · intro c c' fd fd' hc hc' hne
      exact absurd (hsilent.one c c' fd fd' hc hc') hne
    · intro sent hmem fd party hp
      have hnothing : sent = [] := hquiet.mp hsilent.quiet _ hmem
      rw [hnothing] at hp
      cases hp

/-- A server with the Unix socket 3 and the Internet socket 4, all of whose clients have Unix
sockets. -/
def unixOnly : Sockets ℕ where
  unSock := 3
  netSock := 4
  isUnix := fun _ => true

/-- What is on the stack. -/
def anyMessage : Message ℤ :=
  ⟨.msg, 0, 0, 0, 0, .add, ""⟩

/-- A machine on which all four operations add. -/
def plus (_ : Operation) (a b : ℤ) : ℤ :=
  a + b

/-- A round of pings before the first client, and a client. -/
def firstClient : List (Choice ℤ ℕ) :=
  [.pingRound, .hello 0 anyMessage, .receive 3]

/-- The server after that. -/
def served : List (Event ℕ) × Hub ℤ ℕ :=
  ((hub unixOnly plus).exec (.initial unixOnly anyMessage anyMessage) firstClient).get
    (by decide +kernel)

/-- So far all is well. -/
theorem routed_first_client : Routed served.1 := by
  have hexec : (hub unixOnly plus).exec (.initial unixOnly anyMessage anyMessage) firstClient =
      some (served.1, served.2) := (Option.some_get _).symm
  have hevents : served.1 = [.sends [], .silent, .registered (.of 0) 3] := by decide +kernel
  apply (routed_iff hexec).mpr
  constructor
  · rw [hevents]
    simp
    omega
  · rw [Machine.along_iff (fun _ _ _ _ hnext => quiet_iff hnext) hexec, hevents]
    simp [Event.Nothing]

/-- **Two clients and a task**: both clients are registered as the server's own socket, and the
task is delivered to the server. -/
theorem task_to_itself :
    let run := (hub unixOnly plus).exec (.initial unixOnly anyMessage anyMessage)
      [.hello 0 anyMessage, .hello 1 anyMessage, .receive 3, .receive 3, .command .add 2 3 0]
    run.map (fun p => p.1.drop 2) =
        some [.registered (.of 0) 3, .registered (.of 1) 3, .sends [(3, some .server)]] ∧
      ∀ events s, run = some (events, s) → ¬ Routed events := by
  intro run
  have hrun : run.map (fun p => p.1.drop 2) =
      some [.registered (.of 0) 3, .registered (.of 1) 3, .sends [(3, some .server)]] := by
    decide +kernel
  refine ⟨hrun, ?_⟩
  intro events s heq hrouted
  rw [heq] at hrun
  have hdrop : events.drop 2 =
      [.registered (.of 0) 3, .registered (.of 1) 3, .sends [(3, some .server)]] :=
    Option.some.inj hrun
  have hmem : ∀ e ∈ events.drop 2, e ∈ events := fun e he => List.mem_of_mem_drop he
  rw [hdrop] at hmem
  have hone := hmem (.registered (.of 0) 3) (by simp)
  have htwo := hmem (.registered (.of 1) 3) (by simp)
  exact hrouted.distinguishable 0 1 3 3 hone htwo (by decide) rfl

end SystemyOperacyjne.DatagramServer
