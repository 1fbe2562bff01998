import SystemyOperacyjne.Analysis.TaskIssuing
import SystemyOperacyjne.Library.Channels

/-!
# Which task a result is printed for

The exchange follows its ledger: every message on a connection is about the task the ledger
has in its place, a message on its way to a client carries the task's number, and one on its
way back the number above it, since `respond` has counted the counter up (`tracks_run`). So
each line `Task no.c = r` shows the result of task `c - 1`, and the lines are right about
task `c` just where the two results agree. That a task is answered once at most is a fact
about the ledger alone (`once_after`).
-/

set_option autoImplicit false

namespace SystemyOperacyjne.ComputeServer

open Library

variable {ν : Type} {evaluate : Operation → ν → ν → ν} {L : Ledger ν} {s s' : Exchange ν}
  {e : Event ν} {events : List (Event ν)} {tasks : List (Task ν)} {fd : Fd}

/-! ## The ledger -/

/-- The numbers of the tasks that are on their way on a connection. -/
def Ledger.onWay (L : Ledger ν) (fd : Fd) : List ℕ :=
  (L.asked fd ++ L.replied fd).filterMap id

/-- No task is in two places, and only tasks issued are anywhere. -/
structure Ledger.Once (L : Ledger ν) : Prop where
  issued : ∀ fd, ∀ c ∈ L.onWay fd, c < L.issued.length
  answeredIssued : ∀ c ∈ L.answered, c < L.issued.length
  nodup : ∀ fd, (L.onWay fd).Nodup
  apart : ∀ fd fd', fd ≠ fd' → (L.onWay fd).Disjoint (L.onWay fd')
  answered : L.answered.Nodup
  gone : ∀ fd, L.answered.Disjoint (L.onWay fd)

/-- Where the same tasks are in the same places, no task is in two. -/
theorem Ledger.Once.of_perm {L' : Ledger ν} (h : L.Once) (hissued : L'.issued = L.issued)
    (hanswered : L'.answered = L.answered)
    (hway : ∀ fd, (L'.onWay fd).Perm (L.onWay fd) ∨ L'.onWay fd = []) : L'.Once := by
  have hmem : ∀ fd, ∀ c ∈ L'.onWay fd, c ∈ L.onWay fd := by
    intro fd c hc
    rcases hway fd with hperm | hnil
    · exact hperm.mem_iff.mp hc
    · rw [hnil] at hc
      cases hc
  constructor
  · intro fd c hc
    rw [hissued]
    exact h.issued fd c (hmem fd c hc)
  · rw [hissued, hanswered]
    exact h.answeredIssued
  · intro fd
    rcases hway fd with hperm | hnil
    · exact hperm.nodup_iff.mpr (h.nodup fd)
    · rw [hnil]
      exact List.nodup_nil
  · intro fd fd' hne c hc hc'
    exact h.apart fd fd' hne (hmem fd c hc) (hmem fd' c hc')
  · rw [hanswered]
    exact h.answered
  · intro fd c hc hc'
    rw [hanswered] at hc
    exact h.gone fd hc (hmem fd c hc')

/-- A new task is on its way on the connection it is sent on. -/
theorem Ledger.onWay_issue (L : Ledger ν) (task : Task ν) (fd x : Fd) :
    ((L.after (.issue task fd)).onWay x).Perm
      (if x = fd then L.issued.length :: L.onWay x else L.onWay x) := by
  unfold Ledger.onWay Ledger.after
  dsimp only
  split
  · next hx =>
    subst hx
    rw [Function.update_self, List.append_assoc]
    simp only [List.filterMap_append]
    exact List.perm_middle
  · next hx => rw [Function.update_of_ne hx]

/-- A client's answer leaves the task on its way. -/
theorem Ledger.onWay_reply (L : Ledger ν) (fd x : Fd) :
    ((L.after (.reply fd)).onWay x).Perm (L.onWay x) := by
  unfold Ledger.onWay Ledger.after
  dsimp only
  by_cases hx : x = fd
  · subst hx
    rw [Function.update_self, Function.update_self]
    apply List.Perm.filterMap
    cases L.asked x with
    | nil => simp
    | cons c rest =>
      rw [List.tail_cons, List.take_succ_cons, List.take_zero, ← List.append_assoc]
      exact List.perm_append_singleton c _
  · rw [Function.update_of_ne hx, Function.update_of_ne hx]

/-- A message that is about no task does not matter. -/
theorem Ledger.onWay_ping (L : Ledger ν) (fds : List Fd) (x : Fd) :
    (L.after (.ping fds)).onWay x = L.onWay x := by
  unfold Ledger.onWay Ledger.after
  dsimp only
  rw [List.filterMap_append, List.filterMap_append]
  congr 1
  generalize L.asked = asked
  induction fds generalizing asked with
  | nil => rfl
  | cons fd fds ih =>
    rw [List.foldl_cons, ih]
    by_cases hx : x = fd
    · subst hx
      rw [Function.update_self, List.filterMap_append]
      simp
    · rw [Function.update_of_ne hx]

/-- The tasks answered by the message that is heard were on their way. -/
theorem Ledger.onWay_hear (L : Ledger ν) (fd x : Fd) :
    (L.onWay x).Perm ((if x = fd then ((L.replied fd).take 1).filterMap id else []) ++
      (L.after (.hear fd)).onWay x) := by
  unfold Ledger.onWay Ledger.after
  dsimp only
  split
  · next hx =>
    subst hx
    rw [Function.update_self, ← List.filterMap_append]
    apply List.Perm.filterMap
    cases L.replied x with
    | nil => simp
    | cons c rest => exact List.perm_middle
  · next hx => rw [Function.update_of_ne hx, List.nil_append]

/-- A task that is issued is new. -/
theorem Ledger.Once.issue (h : L.Once) (task : Task ν) (fd : Fd) :
    (L.after (.issue task fd)).Once := by
  have hmem : ∀ x, ∀ c ∈ (L.after (.issue task fd)).onWay x,
      c ∈ L.onWay x ∨ x = fd ∧ c = L.issued.length := by
    intro x c hc
    rw [(L.onWay_issue task fd x).mem_iff] at hc
    split at hc
    · next hx =>
      rcases List.mem_cons.mp hc with rfl | hc
      · exact .inr ⟨hx, rfl⟩
      · exact .inl hc
    · exact .inl hc
  have hnew : ∀ x, L.issued.length ∉ L.onWay x := by
    intro x hc
    exact absurd (h.issued x _ hc) (Nat.lt_irrefl _)
  have hlen : (L.after (.issue task fd)).issued.length = L.issued.length + 1 := by
    simp [Ledger.after]
  constructor
  · intro x c hc
    rw [hlen]
    rcases hmem x c hc with hc | ⟨-, rfl⟩
    · have hlt := h.issued x c hc
      omega
    · omega
  · intro c hc
    have hlt := h.answeredIssued c hc
    omega
  · intro x
    rw [(L.onWay_issue task fd x).nodup_iff]
    split
    · exact List.nodup_cons.mpr ⟨hnew x, h.nodup x⟩
    · exact h.nodup x
  · intro x y hne c hx hy
    rcases hmem x c hx with hx | ⟨hxfd, rfl⟩
    · rcases hmem y c hy with hy | ⟨-, rfl⟩
      · exact h.apart x y hne hx hy
      · exact hnew x hx
    · rcases hmem y _ hy with hy | ⟨hyfd, -⟩
      · exact hnew y hy
      · exact hne (hxfd.trans hyfd.symm)
  · exact h.answered
  · intro x c hc hx
    rcases hmem x c hx with hx | ⟨-, rfl⟩
    · exact h.gone x hc hx
    · exact absurd (h.answeredIssued _ hc) (Nat.lt_irrefl _)

/-- A task that is answered is no longer on its way. -/
theorem Ledger.Once.hear (h : L.Once) (fd : Fd) : (L.after (.hear fd)).Once := by
  have hmem : ∀ x, ∀ c ∈ (L.after (.hear fd)).onWay x, c ∈ L.onWay x := by
    intro x c hc
    rw [(L.onWay_hear fd x).mem_iff]
    exact List.mem_append_right _ hc
  have hheard : ∀ c ∈ ((L.replied fd).take 1).filterMap id, c ∈ L.onWay fd := by
    intro c hc
    rw [(L.onWay_hear fd fd).mem_iff, if_pos rfl]
    exact List.mem_append_left _ hc
  have hsplit := ((L.onWay_hear fd fd).nodup_iff.mp (h.nodup fd))
  rw [if_pos rfl, List.nodup_append'] at hsplit
  obtain ⟨hnodup, -, hgone⟩ := hsplit
  constructor
  · intro x c hc
    exact h.issued x c (hmem x c hc)
  · intro c hc
    rcases List.mem_append.mp hc with hc | hc
    · exact h.answeredIssued c hc
    · exact h.issued fd c (hheard c hc)
  · intro x
    exact (List.nodup_append.mp ((L.onWay_hear fd x).nodup_iff.mp (h.nodup x))).2.1
  · intro x y hne c hx hy
    exact h.apart x y hne (hmem x c hx) (hmem y c hy)
  · apply List.nodup_append'.mpr
    refine ⟨h.answered, hnodup, ?_⟩
    intro c hc hc'
    exact h.gone fd hc (hheard c hc')
  · intro x c hc hx
    rcases List.mem_append.mp hc with hc | hc
    · exact h.gone x hc (hmem x c hx)
    · by_cases hxfd : x = fd
      · subst hxfd
        exact hgone hc hx
      · exact h.apart x fd hxfd (hmem x c hx) (hheard c hc)

/-- **No event puts a task in two places.** -/
theorem once_after (h : L.Once) (e : Event ν) : (L.after e).Once := by
  cases e with
  | connect fd =>
    apply h.of_perm
    · rfl
    · rfl
    · intro x
      unfold Ledger.onWay Ledger.after
      dsimp only
      by_cases hx : x = fd
      · subst hx
        rw [Function.update_self, Function.update_self]
        exact .inr rfl
      · rw [Function.update_of_ne hx, Function.update_of_ne hx]
        exact .inl (.refl _)
  | leave fd => exact h
  | turn fd => exact h
  | lose fd => exact h
  | close fd => exact h
  | hear fd => exact h.hear fd
  | reply fd => exact h.of_perm rfl rfl fun x => .inl (L.onWay_reply fd x)
  | issue task fd => exact h.issue task fd
  | ping fds => exact h.of_perm rfl rfl fun x => .inl (.of_eq (L.onWay_ping fds x))

/-- In the ledger of a run no task is in two places. -/
theorem once_ledger (events : List (Event ν)) : (ledger events).Once := by
  induction events using List.reverseRecOn with
  | nil => constructor <;> simp [ledger, Ledger.empty, Ledger.onWay]
  | append_singleton events e ih =>
    unfold ledger
    rw [List.foldl_append]
    exact once_after ih e

/-! ## The exchange follows its ledger -/

/-- A message to a client is about what the ledger has in its place. -/
def Asks (tasks : List (Task ν)) (msg : Message ν) : Option ℕ → Prop
  | none => msg.type = .ping
  | some c => msg.type = .msg ∧ msg.counter = c ∧ tasks[c]? = some ⟨msg.oper, msg.num1, msg.num2⟩

/-- A message from a client is about what the ledger has in its place. An answer carries the
number above its task's. -/
def Answers (evaluate : Operation → ν → ν → ν) (tasks : List (Task ν)) (msg : Message ν) :
    Option ℕ → Prop
  | none => msg.type = .hello ∨ msg.type = .ping
  | some c => msg.type = .answer ∧ msg.counter = c + 1 ∧
      ∃ t, tasks[c]? = some t ∧ msg.answer = t.result evaluate

/-- A line `Task no.c = r` shows the result of the task the ledger has in its place, under the
number above its own. -/
def Prints (evaluate : Operation → ν → ν → ν) (tasks : List (Task ν)) (line : ℤ × ν) (c : ℕ) :
    Prop :=
  line.1 = c + 1 ∧ ∃ t, tasks[c]? = some t ∧ line.2 = t.result evaluate

/-- The counter and the result of a line `Task no.c = r`. -/
def Line.task : Line ν → Option (ℤ × ν)
  | .taskAnswer counter answer => some (counter, answer)
  | _ => none

/-- The lines `Task no.c = r` that the server has printed. -/
def Exchange.taskLines (s : Exchange ν) : List (ℤ × ν) :=
  s.server.printed.filterMap Line.task

/-- The exchange is where the ledger says. -/
structure Tracks (evaluate : Operation → ν → ν → ν) (L : Ledger ν) (s : Exchange ν) : Prop where
  counter : s.taskCounter = L.issued.length
  ping : s.pingMsg.type = .ping
  inbox : Match (Asks L.issued) s.inbox L.asked
  waiting : Match (Answers evaluate L.issued) (fun fd => (s.server.sockets fd).waiting) L.replied
  printed : List.Forall₂ (Prints evaluate L.issued) s.taskLines L.answered

/-- Giving a socket new contents gives its channel new contents. -/
theorem waiting_update (sockets : Fd → Socket ν) (fd : Fd) (socket : Socket ν) :
    (fun x => (Function.update sockets fd socket x).waiting) =
      Function.update (fun x => (sockets x).waiting) fd socket.waiting :=
  Function.comp_update Socket.waiting sockets fd socket

/-- Numbers keep their tasks when one more is issued. -/
theorem getElem?_issued {c : ℕ} {t : Task ν} (h : tasks[c]? = some t) (task : Task ν) :
    (tasks ++ [task])[c]? = some t := by
  obtain ⟨hc, -⟩ := List.getElem?_eq_some_iff.mp h
  rw [List.getElem?_append_left hc, h]

/-- A message asks for its task when more have been issued, too. -/
theorem Asks.issue {msg : Message ν} {c : Option ℕ} (h : Asks tasks msg c) (task : Task ν) :
    Asks (tasks ++ [task]) msg c := by
  cases c with
  | none => exact h
  | some c => exact ⟨h.1, h.2.1, getElem?_issued h.2.2 task⟩

/-- So does an answer answer it. -/
theorem Answers.issue {msg : Message ν} {c : Option ℕ} (h : Answers evaluate tasks msg c)
    (task : Task ν) : Answers evaluate (tasks ++ [task]) msg c := by
  cases c with
  | none => exact h
  | some c =>
    obtain ⟨htype, hcounter, t, ht, hanswer⟩ := h
    exact ⟨htype, hcounter, t, getElem?_issued ht task, hanswer⟩

/-- And a line is about it. -/
theorem Prints.issue {line : ℤ × ν} {c : ℕ} (h : Prints evaluate tasks line c) (task : Task ν) :
    Prints evaluate (tasks ++ [task]) line c := by
  obtain ⟨hcounter, t, ht, hresult⟩ := h
  exact ⟨hcounter, t, getElem?_issued ht task, hresult⟩

/-- **The client answers what it is asked.** -/
theorem Asks.clientMain (evaluate : Operation → ν → ν → ν) {msg : Message ν} {c : Option ℕ}
    (h : Asks tasks msg c) :
    ∃ reply, clientMain evaluate msg = some [reply] ∧ Answers evaluate tasks reply c := by
  cases c with
  | none =>
    refine ⟨{ msg with type := .ping }, ?_, .inr rfl⟩
    unfold ComputeServer.clientMain
    rw [show msg.type = .ping from h]
  | some c =>
    obtain ⟨htype, hcounter, ht⟩ := h
    refine ⟨respond evaluate msg, ?_, rfl, ?_, _, ht, rfl⟩
    · unfold ComputeServer.clientMain
      rw [htype]
    · unfold respond
      dsimp only
      rw [hcounter]

/-- **The server prints what it is answered.** -/
theorem Answers.lineOf {msg : Message ν} {c : Option ℕ} (h : Answers evaluate tasks msg c) :
    List.Forall₂ (Prints evaluate tasks) ((lineOf msg).toList.filterMap Line.task)
      ([c].filterMap id) := by
  unfold ComputeServer.lineOf
  cases c with
  | none =>
    rcases h with htype | htype
    · rw [htype]
      exact .nil
    · rw [htype]
      exact .nil
  | some c =>
    obtain ⟨htype, hcounter, t, ht, hanswer⟩ := h
    rw [htype]
    exact .cons ⟨hcounter, t, ht, hanswer⟩ .nil

/-- **One step**: the exchange stays where the ledger says. -/
theorem tracks_step (h : Tracks evaluate L s) (hstep : Moved evaluate s e s') :
    Tracks evaluate (L.after e) s' := by
  cases hstep with
  | connect _ _ =>
    constructor
    · exact h.counter
    · exact h.ping
    · exact h.inbox.set .nil
    · dsimp only
      rw [waiting_update]
      exact h.waiting.set (.cons (.inl rfl) .nil)
    · exact h.printed
  | leave => exact ⟨h.counter, h.ping, h.inbox, h.waiting, h.printed⟩
  | turn => exact ⟨h.counter, h.ping, h.inbox, h.waiting, h.printed⟩
  | lose => exact ⟨h.counter, h.ping, h.inbox, h.waiting, h.printed⟩
  | close _ => exact ⟨h.counter, h.ping, h.inbox, h.waiting, h.printed⟩
  | @hear fd msg rest registry hmsg _ =>
    obtain ⟨c, rest', hreplied, hc, hwaiting⟩ := h.waiting.pop hmsg
    constructor
    · exact h.counter
    · exact h.ping
    · exact h.inbox
    · unfold Ledger.after
      dsimp only
      rw [waiting_update, hreplied]
      exact hwaiting
    · unfold Ledger.after Exchange.taskLines
      dsimp only
      rw [hreplied, List.filterMap_append]
      exact List.rel_append h.printed hc.lineOf
  | @reply fd msg rest hmsg =>
    obtain ⟨c, rest', hasked, hc, hinbox⟩ := h.inbox.pop hmsg
    obtain ⟨reply, hmain, hreply⟩ := hc.clientMain evaluate
    unfold clientOne Ledger.after
    dsimp only
    rw [hmain, hasked]
    constructor
    · exact h.counter
    · exact h.ping
    · exact hinbox
    · dsimp only
      rw [waiting_update]
      exact h.waiting.push hreply
    · exact h.printed
  | @issue task fd =>
    have hnew : (L.issued ++ [task])[L.issued.length]? = some task := List.getElem?_concat_length
    constructor
    · show s.taskCounter + 1 = ((L.issued ++ [task]).length : ℤ)
      rw [List.length_append, List.length_singleton, h.counter]
      omega
    · exact h.ping
    · apply (h.inbox.mono fun _ _ hc => hc.issue task).push
      exact ⟨rfl, h.counter, hnew⟩
    · exact h.waiting.mono fun _ _ hc => hc.issue task
    · exact h.printed.imp fun _ _ hc => hc.issue task
  | ping _ =>
    constructor
    · exact h.counter
    · exact h.ping
    · exact h.inbox.pushAll (show Asks L.issued s.pingMsg none from h.ping) _
    · exact h.waiting
    · exact h.printed

/-- **Every run**: the exchange is where the ledger of the run says. -/
theorem tracks_run {s₀ : Exchange ν} (hinit : (exchange evaluate).init s₀)
    (hrun : (exchange evaluate).system.Run s₀ events s) : Tracks evaluate (ledger events) s := by
  have hboth : s.Sane ∧ Tracks evaluate (ledger events) s := by
    refine hrun.history_induction (I := fun events s => s.Sane ∧ Tracks evaluate (ledger events) s)
      ?_ ⟨(sane_invariant evaluate).init _ hinit, ?_⟩
    · rintro events s e s' ⟨hsane, htracks⟩ ⟨c, hstep⟩
      refine ⟨(sane_invariant evaluate).step s e s' hsane ⟨c, hstep⟩, ?_⟩
      unfold ledger
      rw [List.foldl_append]
      exact tracks_step htracks (moved_of_next hsane hstep)
    · obtain ⟨commandMsg, pingMsg, rfl⟩ := hinit
      exact ⟨rfl, rfl, fun _ => .nil, fun _ => .nil, .nil⟩
  exact hboth.2

/-! ## The lines -/

/-- What is wanted of the lines: each shows the result of the task that was issued under its
counter, and no two have the same counter. -/
structure Correlated (evaluate : Operation → ν → ν → ν) (tasks : List (Task ν))
    (lines : List (ℤ × ν)) : Prop where
  right : ∀ line ∈ lines, ∃ (c : ℕ) (t : Task ν),
    line.1 = c ∧ tasks[c]? = some t ∧ line.2 = t.result evaluate
  once : (lines.map Prod.fst).Nodup

/-- The counters of the lines are one above the numbers of the tasks answered. -/
theorem Tracks.counters (h : Tracks evaluate L s) :
    s.taskLines.map Prod.fst = L.answered.map fun c : ℕ => (c : ℤ) + 1 := by
  have hprinted := h.printed
  generalize s.taskLines = lines, L.answered = answered at hprinted
  induction hprinted with
  | nil => rfl
  | cons hline _ ih => rw [List.map_cons, List.map_cons, ih, hline.1]

/-- **When the results are printed for the right tasks**: where each task that has been answered
is followed by one with the same result.
SOURCE: cw10/zad1/server.c:195-238, cw10/zad1/client.c:134-153 -/
theorem correlated_iff {s₀ : Exchange ν} (hinit : (exchange evaluate).init s₀)
    (hrun : (exchange evaluate).system.Run s₀ events s) :
    Correlated evaluate (ledger events).issued s.taskLines ↔
      ∀ c ∈ (ledger events).answered, ∃ t t',
        (ledger events).issued[c]? = some t ∧ (ledger events).issued[c + 1]? = some t' ∧
        t.result evaluate = t'.result evaluate := by
  have h := tracks_run hinit hrun
  constructor
  · intro hright c hc
    obtain ⟨line, hline, hcounter, t, ht, hresult⟩ := exists_left_of_mem h.printed hc
    obtain ⟨n, t', hn, ht', hresult'⟩ := hright.right line hline
    obtain rfl : n = c + 1 := by omega
    exact ⟨t, t', ht, ht', hresult.symm.trans hresult'⟩
  · intro hnext
    constructor
    · intro line hline
      obtain ⟨c, hc, hcounter, t, ht, hresult⟩ := exists_right_of_mem h.printed hline
      obtain ⟨t₀, t', ht₀, ht', hsame⟩ := hnext c hc
      rw [ht] at ht₀
      cases ht₀
      exact ⟨c + 1, t', hcounter, ht', hresult.trans hsame⟩
    · rw [h.counters]
      apply (once_ledger events).answered.map
      intro a b hab
      dsimp only at hab
      omega

/-- Two tasks with one result, the first of which is answered. -/
def twinTasks : List (Choice ℤ) :=
  [.accept 5 false someMessage, .command .add 2 3 0, .command .add 1 4 0, .client 5, .receive 5,
    .receive 5]

/-- The server after them. -/
def twins : List (Event ℤ) × Exchange ℤ :=
  ((exchange adding).exec (.initial someMessage someMessage) twinTasks).get (by decide +kernel)

/-- Its line is right, although it is printed under the number of the second. -/
theorem correlated_twins : Correlated adding (ledger twins.1).issued twins.2.taskLines := by
  have hexec : (exchange adding).exec (.initial someMessage someMessage) twinTasks = some twins :=
    (Option.some_get _).symm
  have hrun : (exchange adding).system.Run (.initial someMessage someMessage) twins.1 twins.2 :=
    Machine.exec_run hexec
  apply (correlated_iff ⟨someMessage, someMessage, rfl⟩ hrun).mpr
  have hissued : (ledger twins.1).issued = [⟨.add, 2, 3⟩, ⟨.add, 1, 4⟩] := by decide +kernel
  have hanswered : (ledger twins.1).answered = [0] := by decide +kernel
  rw [hissued, hanswered]
  intro c hc
  obtain rfl := List.mem_singleton.mp hc
  exact ⟨_, _, rfl, rfl, rfl⟩

/-- **One task answered**: the line is printed under the number 1, which no task has. -/
theorem first_task_answered :
    let run := (exchange adding).exec (.initial someMessage someMessage)
      [.accept 5 false someMessage, .command .add 2 3 0, .client 5, .receive 5, .receive 5]
    run.map (fun (events, s) => ((ledger events).issued, s.taskLines)) =
        some ([⟨.add, 2, 3⟩], [(1, 5)]) ∧
      ¬ Correlated adding [⟨.add, 2, 3⟩] [(1, 5)] := by
  constructor
  · decide +kernel
  · intro h
    obtain ⟨c, t, hc, ht, -⟩ := h.right (1, 5) (List.mem_singleton.mpr rfl)
    obtain rfl : c = 1 := by
      dsimp only at hc
      omega
    cases ht

end SystemyOperacyjne.ComputeServer
