import SystemyOperacyjne.Model.ConsoleTasks

/-!
# Where the operands of a task come from

A call of `scanf` that reads an operator and not two numbers behind it leaves in the variables
what an earlier call has stored, and the task is sent all the same. `oneCall_iff` says in which
runs every task is made of what one call has read.
-/

set_option autoImplicit false

namespace SystemyOperacyjne.ConsoleTasks

open Library ComputeServer

variable {ν : Type} {v : Version} {env : Surroundings} {envs : ℕ → Surroundings} {s : Console ν}

/-- The operator and the operands were read by one call of `scanf`. -/
def OneCall (m : TaskMessage ν) : Prop :=
  ∃ t, m.oper.call = some t ∧ m.num1.call = some t ∧ m.num2.call = some t

/-- The next two items are numbers. -/
def twoNumbers : List (Item ν) → Bool
  | ⟨_, some _⟩ :: ⟨_, some _⟩ :: _ => true
  | _ => false

/-- **The iteration sends no mixture**: if an operator is next and a message goes out, two numbers
stand behind the operator and there is a client; or there is none, and the message is not of
the type of a task yet. -/
def Unmixed (v : Version) (env : Surroundings) (s : Console ν) : Prop :=
  ∀ item input, s.input = item :: input → operation item.word ≠ none → goesOut v env = true →
    if env.client = -1 then s.msg.type ≠ .msg else twoNumbers input = true

/-- What the variables hold was stored by calls that are over. -/
structure Past (s : Console ν) : Prop where
  num1 : ∀ t, s.num1.call = some t → t < s.calls
  num2 : ∀ t, s.num2.call = some t → t < s.calls
  msgNum2 : ∀ t, s.msg.num2.call = some t → t < s.calls

/-- What a call of `scanf` that reads an operator does. -/
structure Scanned (item : Item ν) (input : List (Item ν)) (s s' : Console ν) : Prop where
  calls : s'.calls = s.calls + 1
  oper : s'.oper = ⟨item.word, some s.calls⟩
  num1 : s'.num1 = s.num1 ∨ s'.num1.call = some s.calls
  whole : twoNumbers input = true → s'.num1.call = some s.calls ∧ s'.num2.call = some s.calls
  short : twoNumbers input = false → s'.num2 = s.num2
  msg : s'.msg = s.msg
  sent : s'.sent = s.sent

/-- At the end of the stream `scanf` reads nothing. -/
theorem scanf_nil (h : s.input = []) : scanf s = (none, { s with calls := s.calls + 1 }) := by
  unfold scanf
  simp only [h]

/-- **What a call of `scanf` does**, by what stands behind its first item. -/
theorem scanf_cons {item : Item ν} {input : List (Item ν)} (h : s.input = item :: input) :
    ∃ count s', scanf s = (some count, s') ∧ Scanned item input s s' := by
  unfold scanf
  simp only [h]
  match input with
  | [] | ⟨_, none⟩ :: _ =>
    refine ⟨1, _, rfl, ?_⟩
    constructor
    · rfl
    · rfl
    · exact .inl rfl
    · intro hwhole
      cases hwhole
    · intro _
      rfl
    · rfl
    · rfl
  | [⟨_, some _⟩] | ⟨_, some _⟩ :: ⟨_, none⟩ :: _ =>
    refine ⟨2, _, rfl, ?_⟩
    constructor
    · rfl
    · rfl
    · exact .inr rfl
    · intro hwhole
      cases hwhole
    · intro _
      rfl
    · rfl
    · rfl
  | ⟨_, some _⟩ :: ⟨_, some _⟩ :: _ =>
    refine ⟨3, _, rfl, ?_⟩
    constructor
    · rfl
    · rfl
    · exact .inr rfl
    · intro _
      exact ⟨rfl, rfl⟩
    · intro hshort
      cases hshort
    · rfl
    · rfl

/-- A variable that call `n` may have stored was stored by a call that is over after it. -/
theorem Cell.lt_succ {α : Type} {c c' : Cell α} {n : ℕ} (h : ∀ t, c.call = some t → t < n)
    (hc : c' = c ∨ c'.call = some n) : ∀ t, c'.call = some t → t < n + 1 := by
  intro t ht
  rcases hc with heq | heq
  · rw [heq] at ht
    exact Nat.lt_succ_of_lt (h t ht)
  · rw [heq] at ht
    cases ht
    exact Nat.lt_succ_self n

/-- The variables hold what calls that are over have stored, after a call as before it. -/
theorem Scanned.past {item : Item ν} {input : List (Item ν)} {s' : Console ν}
    (h : Scanned item input s s') (hs : Past s) : Past s' := by
  have hnum2 : s'.num2 = s.num2 ∨ s'.num2.call = some s.calls := by
    cases hinput : twoNumbers input with
    | true => exact .inr (h.whole hinput).2
    | false => exact .inl (h.short hinput)
  constructor
  · rw [h.calls]
    exact Cell.lt_succ hs.num1 h.num1
  · rw [h.calls]
    exact Cell.lt_succ hs.num2 hnum2
  · rw [h.calls, h.msg]
    exact Cell.lt_succ hs.msgNum2 (.inl rfl)

variable {item : Item ν} {input : List (Item ν)} {s' : Console ν}

/-- A message composed after a call of `scanf` is made of what this call has read, if it is a
task, exactly when there is a client and the call has read two numbers, or there is none and the
message is no task. -/
theorem Scanned.compose_oneCall_iff (h : Scanned item input s s') (hs : Past s)
    (env : Surroundings) (oper : Operation) :
    ((compose env oper s').type = .msg → OneCall (compose env oper s')) ↔
      if env.client = -1 then s.msg.type ≠ .msg else twoNumbers input = true := by
  have hcall : s'.oper.call = some s.calls := by rw [h.oper]
  unfold compose
  split
  · dsimp only
    rw [h.msg]
    constructor
    · intro hone htype
      obtain ⟨t, hoper, -, hnum2⟩ := hone htype
      dsimp only at hoper hnum2
      rw [hcall] at hoper
      cases hoper
      exact Nat.lt_irrefl _ (hs.msgNum2 _ hnum2)
    · intro htype heq
      exact absurd heq htype
  · dsimp only
    constructor
    · intro hone
      obtain ⟨t, hoper, -, hnum2⟩ := hone rfl
      dsimp only at hoper hnum2
      rw [hcall] at hoper
      cases hoper
      cases hinput : twoNumbers input with
      | true => rfl
      | false =>
        -- the second operand is of an earlier call
        rw [h.short hinput] at hnum2
        exact absurd (hs.num2 _ hnum2) (Nat.lt_irrefl _)
    · intro hinput _
      obtain ⟨hnum1, hnum2⟩ := h.whole hinput
      exact ⟨s.calls, hcall, hnum1, hnum2⟩

/-- What is kept in the message was stored by calls that are over as well. -/
theorem Past.compose (hs : Past s) (env : Surroundings) (oper : Operation) :
    Past { s with msg := compose env oper s } := by
  refine ⟨hs.num1, hs.num2, ?_⟩
  unfold ConsoleTasks.compose
  dsimp only
  split
  · exact hs.msgNum2
  · exact hs.num2

/-- **One iteration**: it keeps what has been sent, and what it sends itself is made of what one
call has read exactly when it is unmixed. -/
theorem iteration_sent (v : Version) (env : Surroundings) (hs : Past s) :
    Past (iteration v env s) ∧ ∃ l, (iteration v env s).sent = s.sent ++ l ∧
      ((∀ m ∈ l, m.type = .msg → OneCall m) ↔ Unmixed v env s) := by
  match hinput : s.input with
  | [] =>
    have hrun : iteration v env s = { s with calls := s.calls + 1 } := by
      rw [iteration, scanf_nil hinput]
    rw [hrun]
    refine ⟨?_, [], (List.append_nil _).symm, ?_⟩
    · constructor
      · exact Cell.lt_succ hs.num1 (.inl rfl)
      · exact Cell.lt_succ hs.num2 (.inl rfl)
      · exact Cell.lt_succ hs.msgNum2 (.inl rfl)
    · constructor
      · intro _ item input heq
        rw [hinput] at heq
        cases heq
      · intro _ m hm
        cases hm
  | item :: input =>
    obtain ⟨count, s', hscanf, hscanned⟩ := scanf_cons hinput
    have hpast := hscanned.past hs
    cases hoper : operation item.word with
    | none =>
      have hrun : iteration v env s = s' := by
        rw [iteration, hscanf]
        simp only [hscanned.oper, hoper]
      rw [hrun]
      refine ⟨hpast, [], by rw [hscanned.sent, List.append_nil], ?_⟩
      constructor
      · intro _ item' input' heq hword
        rw [hinput] at heq
        cases heq
        exact absurd hoper hword
      · intro _ m hm
        cases hm
    | some oper =>
      have hnext : Past { s' with msg := compose env oper s' } := hpast.compose env oper
      have hunmixed : Unmixed v env s ↔ (goesOut v env = true →
          if env.client = -1 then s.msg.type ≠ .msg else twoNumbers input = true) := by
        constructor
        · intro h
          exact h item input hinput (by rw [hoper]; exact Option.some_ne_none oper)
        · intro h item' input' heq _
          rw [hinput] at heq
          cases heq
          exact h
      rw [hunmixed, ← hscanned.compose_oneCall_iff hs env oper, iteration, hscanf]
      simp only [hscanned.oper, hoper]
      by_cases hout : goesOut v env = true
      · rw [if_pos hout]
        refine ⟨⟨hnext.num1, hnext.num2, hnext.msgNum2⟩, [compose env oper s'], ?_, ?_⟩
        · dsimp only
          rw [hscanned.sent]
        · simp [hout]
      · rw [if_neg hout]
        refine ⟨⟨hnext.num1, hnext.num2, hnext.msgNum2⟩, [], ?_, ?_⟩
        · dsimp only
          rw [hscanned.sent, List.append_nil]
        · simp [hout]

/-- What has been stored when the thread begins. -/
theorem past_start (input : List (Item ν)) (oper : Char) (num1 num2 : ν) (msg : Message ν)
    (taskCounter : ℤ) : Past (Console.start input oper num1 num2 msg taskCounter) := by
  constructor
  · intro t ht
    cases ht
  · intro t ht
    cases ht
  · intro t ht
    cases ht

/-- What all iterations up to `k` send is made of what one call has read exactly when all of them
are unmixed. The induction is on the iterations. -/
theorem commandline_sent (hs : Past s) (hsent : s.sent = []) (k : ℕ) :
    Past (commandline v envs s k) ∧
      ((∀ m ∈ (commandline v envs s k).sent, m.type = .msg → OneCall m) ↔
        ∀ j < k, (commandline v envs s j).running = true →
          Unmixed v (envs j) (commandline v envs s j)) := by
  induction k with
  | zero =>
    refine ⟨hs, ?_⟩
    rw [commandline, hsent]
    simp
  | succ k ih =>
    obtain ⟨hpast, hiff⟩ := ih
    simp only [Nat.lt_succ_iff_lt_or_eq, or_imp, forall_and, forall_eq]
    rw [commandline]
    split
    · rename_i hrunning
      obtain ⟨hnext, l, hsent, hl⟩ := iteration_sent v (envs k) hpast
      refine ⟨hnext, ?_⟩
      rw [hsent, ← hiff, imp_iff_right hrunning, ← hl]
      simp only [List.mem_append, or_imp, forall_and]
    · rename_i hended
      refine ⟨hpast, ?_⟩
      rw [hiff, and_iff_left (fun h => absurd h hended)]

/-- **Tasks that are typed in**. In a run every task that is sent is made of an operator and two
operands that one call of `scanf` has read exactly when every iteration is unmixed.
SOURCE: cw10/zad1/server.c:195-238, cw10/zad2/server.c:163-216 -/
theorem oneCall_iff (v : Version) (envs : ℕ → Surroundings) (input : List (Item ν)) (oper : Char)
    (num1 num2 : ν) (msg : Message ν) (taskCounter : ℤ) :
    let run := commandline v envs (Console.start input oper num1 num2 msg taskCounter)
    (∀ k, ∀ m ∈ (run k).sent, m.type = .msg → OneCall m) ↔
      ∀ k, (run k).running = true → Unmixed v (envs k) (run k) := by
  intro run
  have hsent : ∀ k, (∀ m ∈ (run k).sent, m.type = .msg → OneCall m) ↔
      ∀ j < k, (run j).running = true → Unmixed v (envs j) (run j) :=
    fun k => (commandline_sent (past_start input oper num1 num2 msg taskCounter) rfl k).2
  constructor
  · intro h k
    exact (hsent (k + 1)).mp (h (k + 1)) k (Nat.lt_succ_self k)
  · intro h k
    exact (hsent k).mpr fun j _ => h j

/-- `+ 1 2` and then `* x`, with a client. -/
def plusThenStar (v : Version) : Console ℤ :=
  commandline v (fun _ => ⟨5, true⟩)
    (.start [⟨'+', none⟩, ⟨'1', some 1⟩, ⟨'2', some 2⟩, ⟨'*', none⟩, ⟨'x', none⟩] ' ' 0 0
      ⟨.msg, 0, 0, 0, 0, .add, ""⟩ 0) 2

/-- The second task has the operands of the first. -/
theorem plusThenStar_mixed (v : Version) :
    ∃ m ∈ (plusThenStar v).sent, m.type = .msg ∧ ¬ OneCall m := by
  refine ⟨⟨.msg, ⟨1, some 0⟩, ⟨2, some 0⟩, if v = .streams then 1 else 0, ⟨.mul, some 1⟩⟩, ?_, rfl,
    ?_⟩
  · cases v <;> decide
  · rintro ⟨t, hoper, hnum1, -⟩
    cases hoper
    cases hnum1

/-- In both versions. -/
theorem plusThenStar_not_oneCall :
    (∃ m ∈ (plusThenStar .streams).sent, m.type = .msg ∧ ¬ OneCall m) ∧
      ∃ m ∈ (plusThenStar .datagrams).sent, m.type = .msg ∧ ¬ OneCall m :=
  ⟨plusThenStar_mixed .streams, plusThenStar_mixed .datagrams⟩

end SystemyOperacyjne.ConsoleTasks
