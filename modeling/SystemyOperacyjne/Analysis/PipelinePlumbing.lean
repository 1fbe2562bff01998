import SystemyOperacyjne.Analysis.PipelineProgress

/-!
# The commands of a line, one after the other

The commands are run in order, each with its own words and when the one before it is over. Each
reads what the one before it has written, and then the end of the file; where what is written fits
in the pipes, the line always goes on, and when `execLine` is over every command has been run.
-/

set_option autoImplicit false

namespace SystemyOperacyjne.Pipeline

open Library

variable {σ : Type} {c : Setting σ} {s s' : State σ} {ch : Child σ} {e : Option Event}
  {l : List (Option Event)} {m : ℕ}

/-! ## The order of the commands -/

/-- The command whose event it is. -/
def Event.command : Event → ℕ
  | .exec k _ | .read k _ _ _ | .write k _ _ => k

/-- The calls of `execvp`: for which commands, and with which arguments. -/
def execs (l : List (Option Event)) : List (ℕ × List (Option Word)) :=
  l.filterMap fun
    | some (.exec k cmd) => some (k, cmd)
    | _ => none

/-- The commands whose turn it was, event by event. -/
def turns (l : List (Option Event)) : List ℕ :=
  l.filterMap fun e => e.map Event.command

/-- The calls of `execvp` for the first `m` commands. -/
def Setting.firstExecs (c : Setting σ) (m : ℕ) : List (ℕ × List (Option Word)) :=
  (List.range m).map fun k => (k, argv ((c.command k).getD []))

/-- The child has called `execvp`. -/
def ChildPc.begun : ChildPc σ → Bool
  | .dupIn | .dupOut | .exec => false
  | .running _ | .writing _ _ | .exited => true

/-- `m` commands have begun. -/
def State.Begun (c : Setting σ) (s : State σ) (m : ℕ) : Prop :=
  match s.pc with
  | .firstPipe => m = 0
  | .test i | .pipe i | .fork i => m = i
  | .closeWrite i | .dupRead i | .wait i =>
    ∀ ch, s.child = some ch → m = if ch.pc.begun then i + 1 else i
  | .closeIn i | .next i => m = i + 1
  | .closeLast | .done => c.command m = none

/-- **The commands have been run in order**, the first `m` of them. -/
structure Ran (c : Setting σ) (l : List (Option Event)) (s : State σ) (m : ℕ) : Prop where
  executed : execs l = c.firstExecs m
  commands : ∀ k < m, c.command k ≠ none
  sorted : (turns l).Pairwise (· ≤ ·)
  below : ∀ k ∈ turns l, k < m
  begun : s.Begun c m

/-- One more command. -/
theorem firstExecs_succ (c : Setting σ) (m : ℕ) :
    c.firstExecs (m + 1) = c.firstExecs m ++ [(m, argv ((c.command m).getD []))] := by
  unfold Setting.firstExecs
  rw [List.range_succ, List.map_append]
  rfl

/-- The calls of one more event. -/
theorem execs_concat (l : List (Option Event)) (e : Option Event) :
    execs (l ++ [e]) = execs l ++ execs [e] :=
  List.filterMap_append

/-- The turns of one more event. -/
theorem turns_concat (l : List (Option Event)) (e : Option Event) :
    turns (l ++ [e]) = turns l ++ turns [e] :=
  List.filterMap_append

/-- While there is a child, the commands up to its own have begun, and its own if it has called
`execvp`. -/
theorem Wired.begun_iff (h : Wired c s) (hchild : s.child = some ch) :
    s.Begun c m ↔ m = if ch.pc.begun then ch.index + 1 else ch.index := by
  have hforked := h.child
  rw [hchild] at hforked
  unfold State.Begun
  cases hpc : s.pc with
  | closeWrite i | dupRead i | wait i =>
    rw [hpc] at hforked
    cases hforked
    simp only [hchild, Option.some.injEq, forall_eq']
  | _ =>
    rw [hpc] at hforked
    cases hforked

/-- A step that shows nothing. -/
theorem Ran.quiet (h : Ran c l s m) (hbegun : s'.Begun c m) : Ran c (l ++ [none]) s' m := by
  have hexecs : execs (l ++ [none]) = execs l := by
    rw [execs_concat]
    exact List.append_nil _
  have hturns : turns (l ++ [none]) = turns l := by
    rw [turns_concat]
    exact List.append_nil _
  constructor
  · rw [hexecs]
    exact h.executed
  · exact h.commands
  · rw [hturns]
    exact h.sorted
  · rw [hturns]
    exact h.below
  · exact hbegun

/-- The interpreter starts commands in order. -/
theorem Ran.move (h : Ran c l s m) (hwired : Wired c s) (move : Move c s s') :
    Ran c (l ++ [none]) s' m := by
  have hbegun := h.begun
  apply h.quiet
  unfold State.Begun at hbegun ⊢
  cases move with
  | firstPipe hpc | enter hpc | pipe hpc | closeWrite hpc | dupRead hpc | closeIn hpc | next hpc
  | closeLast hpc =>
    rw [hpc] at hbegun
    exact hbegun
  | leave hpc hall =>
    rw [hpc] at hbegun
    rw [show m = _ from hbegun]
    exact hall
  | fork hpc =>
    rw [hpc] at hbegun
    intro ch hch
    cases hch
    exact hbegun
  | waitNobody hpc hnone =>
    have hforked := hwired.child
    rw [hpc, hnone] at hforked
    cases hforked
  | waited hpc hsome hexited =>
    rw [hpc] at hbegun
    have hm := hbegun _ hsome
    rw [hexited] at hm
    exact hm

/-- The command whose turn it is is the last that has begun. -/
theorem Ran.turn (h : Ran c l s m) {a : Event} (hbegun : s'.Begun c m)
    (ha : a.command + 1 = m) (hexecs : execs [some a] = []) :
    Ran c (l ++ [some a]) s' m := by
  have hturns : turns (l ++ [some a]) = turns l ++ [a.command] :=
    turns_concat l (some a)
  constructor
  · rw [execs_concat, hexecs, List.append_nil]
    exact h.executed
  · exact h.commands
  · rw [hturns, List.pairwise_append]
    refine ⟨h.sorted, List.pairwise_singleton _ _, ?_⟩
    intro k hk j hj
    have hlt := h.below k hk
    rw [List.mem_singleton.mp hj]
    omega
  · rw [hturns]
    intro k hk
    rcases List.mem_append.mp hk with hk | hk
    · exact h.below k hk
    · rw [List.mem_singleton.mp hk]
      omega
  · exact hbegun

/-- **The next command begins.** -/
theorem Ran.exec (h : Ran c l s m) (hwired : Wired c s) (hchild : s.child = some ch)
    (hm : m = ch.index) (hbegun : s'.Begun c (m + 1)) :
    Ran c (l ++ [some (.exec ch.index ch.cmd)]) s' (m + 1) := by
  have hcommand := (hwired.inside hchild).command
  have hturns : turns (l ++ [some (.exec ch.index ch.cmd)]) =
      turns l ++ [ch.index] := turns_concat l _
  constructor
  · rw [execs_concat, h.executed, firstExecs_succ, hm, ← (hwired.wired ch hchild).cmd]
    rfl
  · intro k hk
    by_cases hkm : k = m
    · rw [hkm, hm]
      exact hcommand
    · exact h.commands k (by omega)
  · rw [hturns, List.pairwise_append]
    refine ⟨h.sorted, List.pairwise_singleton _ _, ?_⟩
    intro k hk j hj
    have hlt := h.below k hk
    rw [List.mem_singleton.mp hj]
    omega
  · rw [hturns]
    intro k hk
    rcases List.mem_append.mp hk with hk | hk
    · exact Nat.lt_succ_of_lt (h.below k hk)
    · rw [List.mem_singleton.mp hk]
      omega
  · exact hbegun

/-- **A step of a child.** -/
theorem Ran.child (h : Ran c l s m) (hwired : Wired c s) (hchild : s.child = some ch)
    (step : ChildStep c s ch e s') : ∃ m', Ran c (l ++ [e]) s' m' := by
  have hm := (hwired.begun_iff hchild).mp h.begun
  have hnext : Wired c s' := hwired.step (.child hchild step)
  cases step.wired hwired hchild with
  | own own =>
    cases own with
    | dupIn hpc | dupOut hpc =>
      rw [hpc] at hm
      exact ⟨m, h.quiet ((hnext.begun_iff rfl).mpr hm)⟩
    | execed hpc | execFailed hpc =>
      rw [hpc] at hm
      refine ⟨m + 1, h.exec hwired hchild hm ((hnext.begun_iff rfl).mpr ?_)⟩
      rw [show m = ch.index from hm]
      rfl
    | beginWrite hpc | finish hpc =>
      rw [hpc] at hm
      exact ⟨m, h.quiet ((hnext.begun_iff rfl).mpr hm)⟩
    | @written next hpc =>
      rw [hpc] at hm
      refine ⟨m, h.quiet ((hnext.begun_iff rfl).mpr ?_)⟩
      cases next <;> exact hm
  | read hpc =>
    rw [hpc] at hm
    exact ⟨m, h.turn ((hnext.begun_iff rfl).mpr hm) (Eq.symm hm) rfl⟩
  | write hpc =>
    rw [hpc] at hm
    exact ⟨m, h.turn ((hnext.begun_iff rfl).mpr hm) (Eq.symm hm) rfl⟩

/-- **Every run** runs the commands in order. -/
theorem ran (run : (program c).system.Run (start c) l s) : ∃ m, Ran c l s m := by
  have hboth : Wired c s ∧ ∃ m, Ran c l s m := by
    apply run.history_induction (I := fun l s => Wired c s ∧ ∃ m, Ran c l s m)
    · rintro l s e s' ⟨hwired, m, h⟩ hstep
      have hnext := Step.of_system hstep
      refine ⟨hwired.step hnext, ?_⟩
      cases hnext with
      | interpreter move => exact ⟨m, h.move hwired move⟩
      | child hchild step => exact h.child hwired hchild step
    · refine ⟨wired_start, 0, rfl, ?_, .nil, ?_, rfl⟩
      · exact fun k hk => absurd hk (Nat.not_lt_zero k)
      · exact fun k hk => absurd hk List.not_mem_nil
  exact hboth.2

/-! ## What a read gets, and whether the line goes on -/

/-- **A read gets the next part** of what is there for the command, and nothing only where nothing
is left. -/
theorem Wired.read_gets (h : Wired c s) (hchild : s.child = some ch) {p : σ} {size n : ℕ}
    {next : Data → σ} (hpc : ch.pc = .running p) (hop : c.behave p = .read size next)
    (hstep : execCmd c s ch n = some (e, s')) :
    ∃ data rest, e = some (.read ch.index (some (sourceOf ch.index)) size data) ∧
      data ++ rest = s.available ch.index ∧ data.length ≤ size ∧
      (data = [] → size = 0 ∨ rest = []) := by
  cases (ChildStep.of_execCmd hstep).wired h hchild with
  | own own =>
    cases own with
    | dupIn hpc' | dupOut hpc' | execed hpc' | execFailed hpc' | written hpc' =>
      rw [hpc] at hpc'
      cases hpc'
    | beginWrite hpc' hop' | finish hpc' hop' =>
      rw [hpc] at hpc'
      cases hpc'
      rw [hop] at hop'
      cases hop'
  | @read p' size' n' next' data rest hpc' hop' moved =>
    rw [hpc] at hpc'
    cases hpc'
    rw [hop] at hop'
    cases hop'
    refine ⟨data, rest, rfl, chunk_append moved, chunk_length moved, ?_⟩
    intro hnil
    subst hnil
    by_cases hsize : size = 0
    · exact .inl hsize
    · have hempty := chunk_nil (by omega) moved
      have hall := chunk_append moved
      rw [hempty] at hall
      exact .inr hall
  | write hpc' =>
    rw [hpc] at hpc'
    cases hpc'

/-- What a command that another one is to read has written, and is writing, fits in the pipe. -/
def OutputFits (c : Setting σ) (l : List (Option Event)) (s : State σ) : Prop :=
  ∀ ch rest next, s.child = some ch → ch.pc = .writing rest next →
    c.command (ch.index + 1) ≠ none → (writtenBy l ch.index ++ rest).length ≤ c.capacity

/-- **A command goes on** until it exits. -/
theorem Flow.child_onward (h : Flow c l s) (hchild : s.child = some ch) (hlive : ch.pc ≠ .exited)
    (hfits : OutputFits c l s) : ∃ n e s', execCmd c s ch n = some (e, s') := by
  by_contra hstuck
  push Not at hstuck
  have hnone : ∀ n, execCmd c s ch n = none :=
    fun n => Option.eq_none_iff_forall_ne_some.mpr fun r => hstuck n r.1 r.2
  rcases (execCmd_none (hnone 0)).resolve_left hlive with
    ⟨p, size, next, hpc, hop⟩ | ⟨rest, next, hne, hpc⟩
  · obtain ⟨e, s₁, hstep, -⟩ :=
      h.wired.execCmd_read hchild hpc hop (chunk_most (s.available ch.index) size)
    exact hstuck _ _ _ hstep
  · have hpos : 0 < rest.length := List.length_pos_of_ne_nil hne
    have hroom : c.command (ch.index + 1) ≠ none →
        (s.pipe (ch.index + 1)).length + 1 ≤ c.capacity := by
      intro hinner
      have hfit := hfits ch rest next hchild hpc hinner
      rw [← h.pipes ch.index hinner, List.length_append, List.length_append] at hfit
      omega
    obtain ⟨e, s₁, hstep, -⟩ := h.wired.execCmd_write hchild hpc Nat.zero_lt_one hpos hroom
    exact hstuck _ _ _ hstep

/-- **The line goes on** until `execLine` is over. -/
theorem Flow.onward (h : Flow c l s) (hdone : s.pc ≠ .done) (hfits : OutputFits c l s) :
    ∃ e s', (program c).system.step s e s' := by
  have hinterpreter : ∀ s', execLine c s = some s' → ∃ e s', (program c).system.step s e s' := by
    intro s' hstep
    refine ⟨none, s', .interpreter, ?_⟩
    show (execLine c s).map _ = _
    rw [hstep]
    rfl
  by_cases hwait : ∃ i, s.pc = .wait i
  · obtain ⟨i, hpc⟩ := hwait
    have hforked := h.wired.child
    rw [hpc] at hforked
    obtain ⟨ch, hchild, -⟩ := Option.map_eq_some_iff.mp hforked.symm
    by_cases hexited : ch.pc = .exited
    · apply hinterpreter { s with child := none, pc := .closeIn i }
      unfold execLine
      rw [hpc]
      dsimp only
      rw [hchild]
      dsimp only
      rw [hexited]
    · obtain ⟨n, e, s', hstep⟩ := h.child_onward hchild hexited hfits
      refine ⟨e, s', .child n, ?_⟩
      show s.child.bind _ = _
      rw [hchild]
      exact hstep
  · obtain ⟨s', hstep, -⟩ := h.wired.interpreter_onward hdone fun i hpc => hwait ⟨i, hpc⟩
    exact hinterpreter s' hstep

/-! ## The plumbing -/

/-- **The pipeline is plumbed**, in the state after the events `l`. The commands are run in order,
each one with its own words and when the one before it is over, and all of them have been when
`execLine` is. The first command reads the interpreter's standard input. Every other one reads in
order what the command before it has written, and meets the end of the file when it has read all
of that and never otherwise: a read of it does not wait, and gets the next part of what is left, or
nothing if nothing is left. The last command writes to the interpreter's standard output, and no
other one does. As long as what is written fits in the pipes, the line goes on. -/
structure Plumbed (c : Setting σ) (l : List (Option Event)) (s : State σ) : Prop where
  executed : ∃ m, execs l = c.firstExecs m ∧ (∀ k < m, c.command k ≠ none) ∧
    (s.pc = .done → c.command m = none)
  oneByOne : (turns l).Pairwise (· ≤ ·)
  first : ∀ source size data, some (.read 0 source size data) ∈ l → source = some (.inherited 0)
  input : readBy l 0 <+: c.input 0
  inOrder : ∀ k, readBy l (k + 1) <+: writtenBy l k
  atEnd : ∀ k source size, 0 < size → some (.read (k + 1) source size []) ∈ l →
    readBy l (k + 1) = writtenBy l k
  reads : ∀ ch p size next, s.child = some ch → ch.index ≠ 0 → ch.pc = .running p →
    c.behave p = .read size next → ∃ n e s', execCmd c s ch n = some (e, s')
  gets : ∀ ch p size next k n e s', s.child = some ch → ch.index = k + 1 → ch.pc = .running p →
    c.behave p = .read size next → execCmd c s ch n = some (e, s') →
      ∃ data unread, e = some (.read (k + 1) (some (.readEnd (k + 1))) size data) ∧
        readBy l (k + 1) ++ (data ++ unread) = writtenBy l k ∧ data.length ≤ size ∧
        (data = [] → size = 0 ∨ unread = [])
  last : ∀ k target data, some (.write k target data) ∈ l → c.command (k + 1) = none →
    target = some (.inherited 1)
  inner : ∀ k target data, some (.write k target data) ∈ l → c.command (k + 1) ≠ none →
    target = some (.writeEnd (k + 1))
  onward : s.pc ≠ .done → OutputFits c l s → ∃ e s', (program c).system.step s e s'

/-- **The plumbing**: in every run, for every line, every descriptor table in which 0, 1 and 2 are
open, and whatever the commands do.
SOURCE: cw05/zad1/main.c:27-53, cw05/zad1/main.c:55-82 -/
theorem plumbed (run : (program c).system.Run (start c) l s) : Plumbed c l s := by
  have h := flow run
  obtain ⟨m, hran⟩ := ran run
  constructor
  · refine ⟨m, hran.executed, hran.commands, ?_⟩
    intro hdone
    have hbegun := hran.begun
    unfold State.Begun at hbegun
    rw [hdone] at hbegun
    exact hbegun
  · exact hran.sorted
  · intro source size data hev
    exact h.sources 0 source size data hev
  · rw [← h.first]
    exact List.prefix_append ..
  · intro k
    by_cases hk : c.command (k + 1) = none
    · rw [h.exist _ hk]
      exact List.nil_prefix
    · rw [← h.pipes k hk]
      exact List.prefix_append ..
  · intro k source size hsize hev
    exact (h.atEnd k source size hsize hev).1
  · intro ch p size next hchild hne hpc hop
    exact ⟨_, _, _, h.wired.reads hchild hne hpc hop (chunk_most _ size)⟩
  · intro ch p size next k n e s' hchild hindex hpc hop hstep
    obtain ⟨data, unread, he, havailable, hlength, hnil⟩ :=
      h.wired.read_gets hchild hpc hop hstep
    have hcommand := (h.wired.inside hchild).command
    rw [hindex] at he havailable hcommand
    refine ⟨data, unread, he, ?_, hlength, hnil⟩
    rw [havailable]
    exact h.pipes k hcommand
  · intro k target data hev hk
    rw [h.targets k target data hev, targetOf_last hk]
  · intro k target data hev hk
    rw [h.targets k target data hev, targetOf_inner hk]
  · exact h.onward

/-- A text of one byte goes through. -/
def oneByteRun : List (Option Event) × State Stage :=
  ((program (twoCommands ['x'])).exec (start (twoCommands ['x']))
    (List.replicate 6 .interpreter ++ List.replicate 5 (.child 0) ++
      [.child 1, .child 0, .child 0] ++ List.replicate 8 .interpreter ++
      List.replicate 3 (.child 0) ++ [.child 1] ++ List.replicate 4 (.child 0) ++
      List.replicate 5 .interpreter)).get (by decide +kernel)

/-- Both commands have been run, the second has read the byte and met the end of the file. -/
theorem plumbed_oneByte : oneByteRun.2.pc = .done ∧
    execs oneByteRun.1 = (twoCommands ['x']).firstExecs 2 ∧ readBy oneByteRun.1 1 = ['x'] := by
  have hrun : (program (twoCommands ['x'])).system.Run (start (twoCommands ['x'])) oneByteRun.1
      oneByteRun.2 := by
    unfold oneByteRun
    exact Machine.exec_run_get _
  have h := plumbed hrun
  refine ⟨by decide +kernel, by decide +kernel, ?_⟩
  have hend : some (Event.read 1 (some (.readEnd 1)) 4096 []) ∈ oneByteRun.1 := by
    decide +kernel
  rw [h.atEnd 0 _ _ (by decide) hend]
  decide +kernel

end SystemyOperacyjne.Pipeline
