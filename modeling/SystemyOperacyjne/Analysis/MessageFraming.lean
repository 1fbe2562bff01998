import SystemyOperacyjne.Model.MessageStream

/-!
# Which messages reach the switch

The server takes whatever `recv` returns for a message. So the messages that reach the `switch` are
those the client has written as long as `recv` returns whole messages, and no longer: the first call
that returns less is the first of too many. And all of them reach it only if nothing is lost: if no
event is passed over while there is something to receive, and the connection is not closed before
the last message has been received.
-/

set_option autoImplicit false

namespace SystemyOperacyjne.ComputeServer

open Library

variable {ms : List RawMessage} {s s' : Transit} {events : List RecvEvent} {d : Delivery}
  {e : RecvEvent}

/-! ## The bytes -/

/-- What has been received, what is available and what is coming make up what was written, and
no call of `recv` has returned more than a message. -/
structure Transit.Accounts (ms : List RawMessage) (events : List RecvEvent) (s : Transit) :
    Prop where
  bytes : (received events).cells ++ s.available ++ s.coming = stream ms
  bound : ∀ c ∈ received events, c.1.length ≤ sizeofMessage

/-- One more event. -/
theorem received_concat (events : List RecvEvent) (e : RecvEvent) :
    received (events ++ [e]) = received events ++ received [e] :=
  List.filterMap_append

/-- A step that receives nothing keeps the account of the bytes. -/
theorem Transit.Accounts.keep (h : s.Accounts ms events) (hnone : received [e] = [])
    (hbytes : s'.available ++ s'.coming = s.available ++ s.coming) :
    s'.Accounts ms (events ++ [e]) := by
  constructor
  · rw [received_concat, hnone, List.append_nil, List.append_assoc, hbytes, ← List.append_assoc]
    exact h.bytes
  · rw [received_concat, hnone, List.append_nil]
    exact h.bound

/-- **One step** keeps the account of the bytes. -/
theorem accounts_step (h : s.Accounts ms events) (hstep : s.next d = some (e, s')) :
    s'.Accounts ms (events ++ [e]) := by
  cases d with
  | arrive count =>
    obtain ⟨-, heq⟩ := Option.ite_none_right_eq_some.mp hstep
    cases heq
    exact h.keep rfl (by simp)
  | recv count old listed =>
    obtain ⟨⟨-, -, -, hcount⟩, heq⟩ := Option.ite_none_right_eq_some.mp hstep
    cases heq
    constructor
    · have hchunk : (received [.received (s.available.take count) old]).cells =
          s.available.take count := List.append_nil _
      rw [received_concat, Chunks.cells_append, hchunk, ← h.bytes]
      dsimp only
      rw [List.append_assoc (received events).cells, List.take_append_drop]
    · intro c hc
      rw [received_concat] at hc
      rcases List.mem_append.mp hc with hc | hc
      · exact h.bound c hc
      · rw [List.mem_singleton.mp hc, List.length_take]
        omega
  | serve | lose | hangUp listed | again | stop listed =>
    obtain ⟨-, heq⟩ := Option.ite_none_right_eq_some.mp hstep
    cases heq
    exact h.keep rfl rfl

/-- **Every run.** -/
theorem accounts_run {s₀ : Transit} (hinit : (transit ms).init s₀)
    (hrun : (transit ms).system.Run s₀ events s) : s.Accounts ms events := by
  apply hrun.history_induction (I := fun events s => s.Accounts ms events)
  · rintro events s e s' h ⟨d, hstep⟩
    exact accounts_step h hstep
  · rw [show s₀ = ⟨stream ms, [], true, false, false⟩ from hinit]
    exact ⟨rfl, fun c hc => absurd hc List.not_mem_nil⟩

/-! ## What is wanted -/

/-- What is wanted: the messages that have reached the `switch` are the first of those written, in
order, and when nothing more will be received they are all. -/
def Delivered (ms : List RawMessage) (events : List RecvEvent) (s : Transit) : Prop :=
  switched events <+: ms ∧ (s.Settled → switched events = ms)

/-- `recv` has returned a whole message, if it has returned anything. -/
def RecvEvent.Whole : RecvEvent → Prop
  | .received bytes _ => bytes.length = sizeofMessage
  | _ => True

/-- Every call of `recv` that has returned bytes has returned a whole message. -/
def WholeMessages (events : List RecvEvent) : Prop :=
  ∀ e ∈ events, e.Whole

/-- What the calls of `recv` have returned is in the events. -/
theorem received_whole_iff : (received events).Whole ↔ WholeMessages events := by
  unfold Chunks.Whole WholeMessages received
  constructor
  · intro hall e he
    cases e with
    | received bytes old => exact hall (bytes, old) (List.mem_filterMap.mpr ⟨_, he, rfl⟩)
    | arrived | served | lost | hungUp | again | stopped => trivial
  · rintro hall ⟨bytes, old⟩ hmem
    obtain ⟨e, he, heq⟩ := List.mem_filterMap.mp hmem
    cases e with
    | received b o =>
      cases heq
      exact hall _ he
    | arrived | served | lost | hungUp | again | stopped => cases heq

/-- Once everything has been received, the messages are those written exactly when the calls of
`recv` have returned whole ones. -/
theorem Transit.Accounts.delivered_iff_whole (h : s.Accounts ms events) (hcoming : s.coming = [])
    (havailable : s.available = []) : Delivered ms events s ↔ WholeMessages events := by
  have hall : (received events).cells = stream ms := by
    rw [← h.bytes, hcoming, havailable, List.append_nil, List.append_nil]
  rw [← received_whole_iff, ← Chunks.buffers_prefix_iff (by decide) h.bound hall]
  constructor
  · exact fun hdelivered => hdelivered.1
  · intro hfirst
    refine ⟨hfirst, fun _ => ?_⟩
    have hwhole := (Chunks.buffers_prefix_iff (by decide) h.bound hall).mp hfirst
    unfold switched
    rw [hwhole.buffers_eq (by decide) ⟨[], by rw [List.append_nil, hall]⟩, hall, length_stream,
      Nat.mul_div_cancel _ (by decide), List.take_length]

/-! ## Where nothing is lost -/

/-- What is kept where nothing is lost: whole messages have been received; what is available on a
connection that is open has an event or is being received; and on one that has been closed nothing
is left. -/
structure Transit.Kept (events : List RecvEvent) (s : Transit) : Prop where
  whole : WholeMessages events
  noticed : s.isOpen → s.available ≠ [] → s.event ∨ s.receiving
  done : ¬ s.isOpen → s.available = [] ∧ s.coming = []

/-- One more event that is a whole message, if it is one. -/
theorem WholeMessages.concat (h : WholeMessages events) (he : e.Whole) :
    WholeMessages (events ++ [e]) := by
  intro x hx
  rcases List.mem_append.mp hx with hx | hx
  · exact h x hx
  · rwa [List.mem_singleton.mp hx]

/-- **One step** by which nothing is lost. -/
theorem kept_step (h : s.Kept events) (hlossless : s.Lossless d)
    (hstep : s.next d = some (e, s')) : s'.Kept (events ++ [e]) := by
  cases d with
  | arrive count =>
    obtain ⟨⟨hpos, hcount⟩, heq⟩ := Option.ite_none_right_eq_some.mp hstep
    cases heq
    refine ⟨h.whole.concat trivial, fun _ _ => .inl rfl, fun hclosed => ?_⟩
    -- on a closed connection nothing is coming
    rw [(h.done hclosed).2, List.length_nil] at hcount
    omega
  | serve =>
    obtain ⟨⟨hopen, -⟩, heq⟩ := Option.ite_none_right_eq_some.mp hstep
    cases heq
    exact ⟨h.whole.concat trivial, fun _ _ => .inr rfl, fun hclosed => absurd hopen hclosed⟩
  | lose =>
    obtain ⟨-, heq⟩ := Option.ite_none_right_eq_some.mp hstep
    cases heq
    exact ⟨h.whole.concat trivial, fun _ hne => absurd hlossless hne, h.done⟩
  | hangUp listed =>
    obtain ⟨-, heq⟩ := Option.ite_none_right_eq_some.mp hstep
    cases heq
    obtain ⟨havailable, hcoming⟩ := hlossless
    refine ⟨h.whole.concat trivial, fun _ hne => absurd havailable hne, fun hclosed => ?_⟩
    exact ⟨havailable, hcoming (by simpa using hclosed)⟩
  | recv count old listed =>
    obtain ⟨⟨-, -, hle, -⟩, heq⟩ := Option.ite_none_right_eq_some.mp hstep
    cases heq
    obtain ⟨hcount, hlast⟩ := hlossless
    refine ⟨h.whole.concat ?_, fun hopen _ => .inr hopen, fun hclosed => ?_⟩
    · show (s.available.take count).length = sizeofMessage
      rw [List.length_take, ← hcount]
      omega
    · obtain ⟨hlength, hcoming⟩ := hlast (by simpa using hclosed)
      exact ⟨List.drop_eq_nil_of_le (Nat.le_of_eq hlength), hcoming⟩
  | again =>
    obtain ⟨⟨-, havailable⟩, heq⟩ := Option.ite_none_right_eq_some.mp hstep
    cases heq
    exact ⟨h.whole.concat trivial, fun _ hne => absurd havailable hne, h.done⟩
  | stop listed =>
    obtain ⟨-, heq⟩ := Option.ite_none_right_eq_some.mp hstep
    cases heq
    obtain ⟨havailable, hcoming⟩ := hlossless
    refine ⟨h.whole.concat trivial, fun _ hne => absurd havailable hne, fun hclosed => ?_⟩
    exact ⟨havailable, hcoming (by simpa using hclosed)⟩

/-- **Every run** on which nothing is lost. -/
theorem kept_run {s₀ : Transit} (hinit : (transit ms).init s₀)
    (hrun : (sparing ms).system.Run s₀ events s) : s.Kept events := by
  apply hrun.history_induction (I := fun events s => s.Kept events)
  · rintro events s e s' h ⟨d, hstep⟩
    obtain ⟨hlossless, hnext⟩ := Machine.restricted_next_iff.mp hstep
    exact kept_step h hlossless hnext
  · rw [show s₀ = ⟨stream ms, [], true, false, false⟩ from hinit]
    exact ⟨fun e he => absurd he List.not_mem_nil, fun _ hne => absurd rfl hne,
      fun hclosed => absurd rfl hclosed⟩

/-- Where nothing is lost, nothing is left when nothing more will be received. -/
theorem Transit.Kept.all_received (h : s.Kept events) (hsettled : s.Settled) :
    s.available = [] ∧ s.coming = [] := by
  obtain ⟨hcoming, hidle⟩ := hsettled
  by_cases hopen : s.isOpen = true
  · obtain ⟨hevent, hreceiving⟩ := hidle hopen
    refine ⟨?_, hcoming⟩
    by_contra hne
    rcases h.noticed hopen hne with hnoticed | hnoticed
    · exact hevent hnoticed
    · exact hreceiving hnoticed
  · exact h.done hopen

/-- **When the messages written are those that reach the `switch`**: in every run on which nothing
is lost; and a run in which everything is received has them exactly when every call of `recv`
returns a whole message.
SOURCE: cw10/zad1/server.c:75-87, cw10/zad1/server.c:114-160 -/
theorem delivered_iff {s₀ : Transit} (hinit : (transit ms).init s₀) :
    (∀ events s, (sparing ms).system.Run s₀ events s → Delivered ms events s) ∧
    ∀ events s, (transit ms).system.Run s₀ events s → s.coming = [] → s.available = [] →
      (Delivered ms events s ↔ WholeMessages events) := by
  constructor
  · intro events s hrun
    have hkept := kept_run hinit hrun
    have haccounts := accounts_run hinit (hrun.mono fun _ _ _ => Machine.restricted_step)
    constructor
    · have hpre : (received events).cells <+: stream ms := by
        rw [← haccounts.bytes, List.append_assoc]
        exact List.prefix_append _ _
      unfold switched
      rw [Chunks.Whole.buffers_eq (by decide) (received_whole_iff.mpr hkept.whole) hpre]
      exact List.take_prefix _ _
    · intro hsettled
      obtain ⟨havailable, hcoming⟩ := hkept.all_received hsettled
      exact ((haccounts.delivered_iff_whole hcoming havailable).mpr hkept.whole).2 hsettled
  · intro events s hrun hcoming havailable
    exact (accounts_run hinit hrun).delivered_iff_whole hcoming havailable

/-- A message of sixteen ones after as many zeros as it takes. -/
def someBytes : RawMessage :=
  .ofFn fun i => if i.val < 24 then 0 else 1

/-- An `EXIT`. -/
def exitBytes : RawMessage :=
  .ofFn fun i => if i.val = 0 then 4 else 0

/-- A message that arrives in two halves and is received when it is all there, and then an `EXIT`,
which closes the connection. -/
def patience : List Delivery :=
  [.arrive 20, .arrive 20, .serve, .recv 40 (.replicate _ 7) true, .again, .arrive 40, .serve,
    .recv 40 someBytes true]

/-- The connection after that. -/
def patient : List RecvEvent × Transit :=
  ((sparing [someBytes, exitBytes]).exec ⟨stream [someBytes, exitBytes], [], true, false, false⟩
    patience).get (by decide +kernel)

/-- Both messages have reached the `switch`. -/
theorem delivered_patient : switched patient.1 = [someBytes, exitBytes] := by
  have hrun : (sparing [someBytes, exitBytes]).system.Run
      ⟨stream [someBytes, exitBytes], [], true, false, false⟩ patient.1 patient.2 := by
    unfold patient
    exact Machine.exec_run_get _
  have hsettled : patient.2.Settled := by
    unfold Transit.Settled
    decide +kernel
  exact ((delivered_iff rfl).1 _ _ hrun).2 hsettled

/-- **A message received in two halves** reaches the `switch` as two messages. -/
theorem message_in_halves :
    let old : RawMessage := .replicate _ 7
    let run := (transit [someBytes]).exec ⟨stream [someBytes], [], true, false, false⟩
      [.arrive 20, .serve, .recv 20 old true, .again, .arrive 20, .serve, .recv 20 old true, .again]
    run.map (fun (events, _) => (switched events).length) = some 2 ∧
      ∀ events s, run = some (events, s) → ¬ Delivered [someBytes] events s := by
  intro old run
  have hrun : run.map (fun (events, _) => (switched events).length) = some 2 := by
    decide +kernel
  refine ⟨hrun, ?_⟩
  rintro events s heq ⟨hfirst, -⟩
  rw [heq] at hrun
  have hcount : (switched events).length = 2 := Option.some.inj hrun
  have hle := hfirst.length_le
  rw [hcount] at hle
  exact absurd hle (by decide)

end SystemyOperacyjne.ComputeServer
