import SystemyOperacyjne.Analysis.PipelineSteps

/-!
# The descriptors of the pipeline interpreter

The interpreter takes a read end to descriptor 0 as well and closes what it gave to the command,
so after one command descriptor 0 is free, and after the next it is the read end that is kept.
At every point what is needed of the table is the same in both cases: where the read end of the
last pipe is, that nothing has come under descriptor 1, and which write ends are open. Those of
the first pipe, which no command uses, stay open; of the others only that of the newest pipe
is, up to the `close` after the `fork`.
-/

set_option autoImplicit false

namespace SystemyOperacyjne.Pipeline

open Library

variable {σ : Type} {c : Setting σ} {s s' : State σ} {ch : Child σ} {e : Option Event} {i : ℕ}

/-- What command `i` reads. -/
def sourceOf (i : ℕ) : Handle :=
  if i = 0 then .inherited 0 else .readEnd i

/-- Where command `i` writes. -/
def targetOf (c : Setting σ) (i : ℕ) : Handle :=
  if c.isLast i then .inherited 1 else .writeEnd (i + 1)

/-- The write ends that are open are of the first pipe. -/
def State.OnlyFirst (s : State σ) : Prop :=
  ∀ n p, s.fds.entry n = some (.writeEnd p) → p = 0

/-- The interpreter between two commands: `i` commands are over. -/
structure Between (s : State σ) (i : ℕ) : Prop where
  pipesNo : s.pipesNo = i + 1
  stdout : s.fds.entry 1 = some (.inherited 1)
  source : s.fds.entry s.last = some (sourceOf i)
  last : s.last ≠ 1
  lowest : s.last = 0 ∨ s.fds.entry 0 = none
  writers : s.OnlyFirst

/-- The interpreter in the iteration of command `i`, when the pipe for its output is made. -/
structure Inside (c : Setting σ) (s : State σ) (i : ℕ) : Prop where
  command : c.command i ≠ none
  pipesNo : s.pipesNo = i + 2
  stdout : s.fds.entry 1 = some (.inherited 1)
  reader : s.fds.entry s.fd.1 = some (.readEnd (i + 1))
  last : s.last ≠ 1
  lastFd : s.last ≠ s.fd.1
  readFd : s.fd.1 ≠ 1
  writeFd : s.fd.2 ≠ 0 ∧ s.fd.2 ≠ 1 ∧ s.fd.2 ≠ s.fd.1
  lowest : s.last = 0 ∨ s.fd.1 = 0

/-- Of the write ends that are open one may be that of the newest pipe. -/
def State.WithNewest (s : State σ) (i : ℕ) : Prop :=
  ∀ n p, s.fds.entry n = some (.writeEnd p) → p = 0 ∨ p = i + 1 ∧ n = s.fd.2

/-- **The descriptors of the interpreter**, point by point. -/
def Table (c : Setting σ) (s : State σ) : Prop :=
  match s.pc with
  | .firstPipe => s.pipesNo = 0 ∧ s.fds.entry 0 = some (.inherited 0) ∧
      s.fds.entry 1 = some (.inherited 1) ∧ s.OnlyFirst
  | .test i => Between s i
  | .pipe i => Between s i ∧ c.command i ≠ none
  | .fork i => Inside c s i ∧ s.WithNewest i ∧ s.fds.entry s.last = some (sourceOf i) ∧
      s.fds.entry s.fd.2 = some (.writeEnd (i + 1))
  | .closeWrite i => Inside c s i ∧ s.WithNewest i
  | .dupRead i | .wait i | .closeIn i => Inside c s i ∧ s.OnlyFirst
  | .next i => Inside c s i ∧ s.OnlyFirst ∧ (s.fd.1 = 0 ∨ s.fds.entry 0 = none)
  | .closeLast | .done => s.OnlyFirst

/-- Descriptor 0 of the child is what the command reads. -/
def ChildPc.hasInput : ChildPc σ → Bool
  | .dupIn | .exited => false
  | _ => true

/-- Descriptor 1 of the child is what the command writes to. -/
def ChildPc.hasOutput : ChildPc σ → Bool
  | .dupIn | .dupOut | .exited => false
  | _ => true

/-- **The descriptors of a child.** -/
structure ChildWired (c : Setting σ) (ch : Child σ) : Prop where
  redirected : ch.redirected = !c.isLast ch.index
  cmd : ch.cmd = argv ((c.command ch.index).getD [])
  writers : ∀ n p, ch.fds.entry n = some (.writeEnd p) → p = 0 ∨ p = ch.index + 1
  before : ch.pc = .dupIn → ch.fds.entry ch.inFd = some (sourceOf ch.index) ∧ ch.writeFd ≠ 0
  stdout : ch.pc = .dupIn ∨ ch.pc = .dupOut → ch.fds.entry 1 = some (.inherited 1) ∧
    ch.fds.entry ch.writeFd = some (.writeEnd (ch.index + 1))
  input : ch.pc.hasInput = true → ch.fds.entry 0 = some (sourceOf ch.index)
  output : ch.pc.hasOutput = true → ch.fds.entry 1 = some (targetOf c ch.index)

/-- The command whose child has been forked and not been waited for. -/
def Pc.forked : Pc → Option ℕ
  | .closeWrite i | .dupRead i | .wait i => some i
  | _ => none

/-- **The descriptors** of the interpreter and of its child. -/
structure Wired (c : Setting σ) (s : State σ) : Prop where
  table : Table c s
  child : s.pc.forked = s.child.map Child.index
  wired : ∀ ch, s.child = some ch → ChildWired c ch

/-- The connections are right in the beginning. -/
theorem wired_start : Wired c (start c) := by
  constructor
  · refine ⟨rfl, rfl, rfl, ?_⟩
    intro n p h
    have hmem : some (Handle.writeEnd p) ∈ (start c).fds := by
      have hholds := Descriptors.holds_iff.mpr ⟨n, h⟩
      exact of_decide_eq_true hholds
    unfold start at hmem
    simp only [List.cons_append, List.nil_append, List.mem_cons, List.mem_mapIdx] at hmem
    rcases hmem with h | h | h | ⟨j, hj, h⟩
    · cases h
    · cases h
    · cases h
    · split at h <;> cases h
  · rfl
  · intro ch h
    cases h

/-! ## The interpreter's steps -/

/-- **What `pipe` does to the table**: the two ends come under numbers that were free, and the
read end under the lower one. -/
theorem makePipe_entry (s : State σ) (n : ℕ) : s.makePipe.fds.entry n =
    if n = s.makePipe.fd.2 then some (.writeEnd s.pipesNo)
    else if n = s.makePipe.fd.1 then some (.readEnd s.pipesNo) else s.fds.entry n := by
  unfold State.makePipe
  dsimp only
  rw [Descriptors.entry_assign, Descriptors.entry_assign]

/-- A pipe has two descriptors. -/
theorem makePipe_ne (s : State σ) : s.makePipe.fd.2 ≠ s.makePipe.fd.1 := by
  unfold State.makePipe
  dsimp only
  intro heq
  have hopen : (s.fds.assign s.fds.lowestFree (.readEnd s.pipesNo)).entry s.fds.lowestFree =
      some (.readEnd s.pipesNo) := by
    rw [Descriptors.entry_assign, if_pos rfl]
  exact Descriptors.ne_lowestFree hopen heq.symm

/-- The one to read from was free. -/
theorem makePipe_free_read (s : State σ) : s.fds.entry s.makePipe.fd.1 = none :=
  Descriptors.entry_lowestFree s.fds

/-- So was the one to write to. -/
theorem makePipe_free_write (s : State σ) : s.fds.entry s.makePipe.fd.2 = none := by
  have hfree : (s.fds.assign s.fds.lowestFree (.readEnd s.pipesNo)).entry s.makePipe.fd.2 = none :=
    Descriptors.entry_lowestFree _
  have hne : s.makePipe.fd.2 ≠ s.fds.lowestFree := makePipe_ne s
  rw [Descriptors.entry_assign, if_neg hne] at hfree
  exact hfree

/-- What was open stays as it was. -/
theorem makePipe_open {n : ℕ} {h : Handle} (hn : s.fds.entry n = some h) :
    n ≠ s.makePipe.fd.1 ∧ n ≠ s.makePipe.fd.2 ∧ s.makePipe.fds.entry n = some h := by
  have hread : n ≠ s.makePipe.fd.1 := by
    intro heq
    rw [heq, makePipe_free_read] at hn
    cases hn
  have hwrite : n ≠ s.makePipe.fd.2 := by
    intro heq
    rw [heq, makePipe_free_write] at hn
    cases hn
  refine ⟨hread, hwrite, ?_⟩
  rw [makePipe_entry, if_neg hwrite, if_neg hread]
  exact hn

/-- **The pipe for the output of command `i`.** -/
theorem Between.makePipe (h : Between s i) (hcommand : c.command i ≠ none) :
    Table c { s.makePipe with pc := .fork i } := by
  obtain ⟨hlast₁, hlast₂, hlast⟩ := makePipe_open h.source
  obtain ⟨hone₁, hone₂, hone⟩ := makePipe_open h.stdout
  have hread : s.makePipe.fds.entry s.makePipe.fd.1 = some (.readEnd (i + 1)) := by
    rw [makePipe_entry, if_neg (fun heq => makePipe_ne s heq.symm), if_pos rfl, h.pipesNo]
  have hwrite : s.makePipe.fds.entry s.makePipe.fd.2 = some (.writeEnd (i + 1)) := by
    rw [makePipe_entry, if_pos rfl, h.pipesNo]
  -- descriptor 0 is the lowest free one unless it is the one that is kept
  have hlow : s.last = 0 ∨ s.makePipe.fd.1 = 0 := by
    cases h.lowest with
    | inl hzero => exact .inl hzero
    | inr hfree => exact .inr (Descriptors.lowestFree_eq_zero hfree)
  refine ⟨?_, ?_, hlast, hwrite⟩
  · constructor
    · exact hcommand
    · show s.pipesNo + 1 = i + 2
      rw [h.pipesNo]
    · exact hone
    · exact hread
    · exact h.last
    · exact hlast₁
    · exact hone₁.symm
    · refine ⟨?_, hone₂.symm, makePipe_ne s⟩
      intro hzero
      cases hlow with
      | inl h0 => exact hlast₂ (h0.trans hzero.symm)
      | inr h0 => exact makePipe_ne s (hzero.trans h0.symm)
    · exact hlow
  · intro n p hn
    have hn' : s.makePipe.fds.entry n = some (.writeEnd p) := hn
    rw [makePipe_entry] at hn'
    split at hn'
    · rename_i heq
      cases hn'
      exact .inr ⟨h.pipesNo, heq⟩
    · split at hn'
      · cases hn'
      · exact .inl (h.writers n p hn')

/-- The first pipe. -/
theorem table_firstPipe (hno : s.pipesNo = 0) (h0 : s.fds.entry 0 = some (.inherited 0))
    (h1 : s.fds.entry 1 = some (.inherited 1)) (hw : s.OnlyFirst) :
    Table c { s.makePipe with last := 0, pc := .test 0 } := by
  constructor
  · show s.pipesNo + 1 = 0 + 1
    rw [hno]
  · exact (makePipe_open h1).2.2
  · exact (makePipe_open h0).2.2
  · show (0 : ℕ) ≠ 1
    decide
  · exact .inl rfl
  · intro n p hn
    have hn' : s.makePipe.fds.entry n = some (.writeEnd p) := hn
    rw [makePipe_entry, hno] at hn'
    split at hn'
    · cases hn'
      rfl
    · split at hn'
      · cases hn'
      · exact hw n p hn'

/-- The child begins with what the interpreter has. -/
theorem childWired_fork (h : Inside c s i) (hw : s.WithNewest i)
    (hsource : s.fds.entry s.last = some (sourceOf i))
    (hwrite : s.fds.entry s.fd.2 = some (.writeEnd (i + 1))) : ChildWired c (s.fork c i) := by
  constructor
  · rfl
  · rfl
  · intro n p hn
    cases hw n p hn with
    | inl hzero => exact .inl hzero
    | inr hnewest => exact .inr hnewest.1
  · intro _
    exact ⟨hsource, h.writeFd.1⟩
  · intro _
    exact ⟨h.stdout, hwrite⟩
  · intro hin
    cases hin
  · intro hout
    cases hout

/-- The descriptors change under a number that is neither 1 nor that of the read end. -/
theorem Inside.update {fds : Descriptors Handle} {pc : Pc} {child : Option (Child σ)}
    (h : Inside c s i) (hone : fds.entry 1 = s.fds.entry 1)
    (hread : fds.entry s.fd.1 = s.fds.entry s.fd.1) :
    Inside c { s with fds := fds, pc := pc, child := child } i := by
  constructor
  · exact h.command
  · exact h.pipesNo
  · exact hone.trans h.stdout
  · exact hread.trans h.reader
  · exact h.last
  · exact h.lastFd
  · exact h.readFd
  · exact h.writeFd
  · exact h.lowest

/-- **Every step of the interpreter keeps the descriptors in order.** -/
theorem Table.move (h : Table c s) (move : Move c s s') : Table c s' := by
  unfold Table at h
  cases move with
  | firstPipe hpc =>
    rw [hpc] at h
    exact table_firstPipe h.1 h.2.1 h.2.2.1 h.2.2.2
  | enter hpc hcommand =>
    rw [hpc] at h
    exact ⟨⟨h.pipesNo, h.stdout, h.source, h.last, h.lowest, h.writers⟩, hcommand⟩
  | leave hpc =>
    rw [hpc] at h
    exact h.writers
  | pipe hpc =>
    rw [hpc] at h
    exact h.1.makePipe h.2
  | fork hpc =>
    rw [hpc] at h
    exact ⟨h.1.update rfl rfl, h.2.1⟩
  | closeWrite hpc =>
    rw [hpc] at h
    obtain ⟨hin, hw⟩ := h
    refine ⟨hin.update ?_ ?_, ?_⟩
    · rw [Descriptors.entry_close, if_neg hin.writeFd.2.1.symm]
    · rw [Descriptors.entry_close, if_neg hin.writeFd.2.2.symm]
    · intro n p hn
      obtain ⟨hne, hn⟩ := Descriptors.entry_of_close hn
      cases hw n p hn with
      | inl hzero => exact hzero
      | inr hnewest => exact absurd hnewest.2 hne
  | dupRead hpc =>
    rw [hpc] at h
    obtain ⟨hin, hw⟩ := h
    refine ⟨hin.update ?_ ?_, ?_⟩
    · rw [Descriptors.entry_dup2 hin.reader, if_neg (by decide)]
    · rw [Descriptors.entry_dup2 hin.reader, hin.reader]
      split <;> rfl
    · intro n p hn
      have hn' : (s.fds.dup2 s.fd.1 0).entry n = some (.writeEnd p) := hn
      rw [Descriptors.entry_dup2 hin.reader] at hn'
      split at hn'
      · cases hn'
      · exact hw n p hn'
  | waitNobody hpc hchild =>
    rw [hpc] at h
    exact ⟨h.1.update rfl rfl, h.2⟩
  | waited hpc =>
    rw [hpc] at h
    exact ⟨h.1.update rfl rfl, h.2⟩
  | closeIn hpc =>
    rw [hpc] at h
    obtain ⟨hin, hw⟩ := h
    refine ⟨hin.update ?_ ?_, ?_, ?_⟩
    · rw [Descriptors.entry_close, if_neg hin.last.symm]
    · rw [Descriptors.entry_close, if_neg hin.lastFd.symm]
    · exact fun n p hn => hw n p (Descriptors.entry_of_close hn).2
    · -- what is closed is descriptor 0, or the read end that is kept stands there
      show s.fd.1 = 0 ∨ (s.fds.close s.last).entry 0 = none
      cases hin.lowest with
      | inl hzero =>
        right
        rw [Descriptors.entry_close, if_pos hzero.symm]
      | inr hzero => exact .inl hzero
  | next hpc =>
    rw [hpc] at h
    obtain ⟨hin, hw, hlow⟩ := h
    constructor
    · exact hin.pipesNo
    · show (s.fds.close s.fd.2).entry 1 = _
      rw [Descriptors.entry_close, if_neg hin.writeFd.2.1.symm]
      exact hin.stdout
    · show (s.fds.close s.fd.2).entry s.fd.1 = _
      rw [Descriptors.entry_close, if_neg hin.writeFd.2.2.symm]
      exact hin.reader
    · exact hin.readFd
    · show s.fd.1 = 0 ∨ (s.fds.close s.fd.2).entry 0 = none
      rw [Descriptors.entry_close, if_neg hin.writeFd.1.symm]
      exact hlow
    · exact fun n p hn => hw n p (Descriptors.entry_of_close hn).2
  | closeLast hpc =>
    rw [hpc] at h
    exact fun n p hn => h n p (Descriptors.entry_of_close hn).2

/-! ## The child's steps -/

/-- The child is somewhere else with the descriptors it has. -/
theorem ChildWired.goto (h : ChildWired c ch) {pc₀ pc : ChildPc σ} (hat : ch.pc = pc₀)
    (hin : pc₀.hasInput = true) (hout : pc₀.hasOutput = true) (hpc : pc ≠ .dupIn)
    (hpc' : pc ≠ .dupOut) : ChildWired c { ch with pc := pc } := by
  subst hat
  constructor
  · exact h.redirected
  · exact h.cmd
  · exact h.writers
  · exact fun heq => absurd heq hpc
  · exact fun heq => heq.elim (fun heq => absurd heq hpc) (fun heq => absurd heq hpc')
  · exact fun _ => h.input hin
  · exact fun _ => h.output hout

/-- A command that ends has all its descriptors closed. -/
theorem ChildWired.exit (h : ChildWired c ch) : ChildWired c ch.exit := by
  constructor
  · exact h.redirected
  · exact h.cmd
  · intro n p hn
    cases hn
  · intro hpc
    cases hpc
  · intro hpc
    rcases hpc with hpc | hpc
    · cases hpc
    · cases hpc
  · intro hin
    cases hin
  · intro hout
    cases hout

/-- One that goes on has them as before. -/
theorem ChildWired.proceed (h : ChildWired c ch) {rest : Data} {next : Option σ}
    (hpc : ch.pc = .writing rest next) : ChildWired c (ch.proceed next) := by
  cases next with
  | none => exact h.exit
  | some p => exact h.goto hpc rfl rfl (by simp) (by simp)

/-- `dup2(in, STDIN_FILENO)` in the child. -/
theorem ChildWired.dupIn (h : ChildWired c ch) (hpc : ch.pc = .dupIn) :
    ChildWired c { ch with fds := ch.fds.dup2 ch.inFd 0, pc := .dupOut } := by
  obtain ⟨hin, hzero⟩ := h.before hpc
  obtain ⟨hone, hwrite⟩ := h.stdout (.inl hpc)
  constructor
  · exact h.redirected
  · exact h.cmd
  · intro n p hn
    have hn' : (ch.fds.dup2 ch.inFd 0).entry n = some (.writeEnd p) := hn
    rw [Descriptors.entry_dup2 hin] at hn'
    split at hn'
    · unfold sourceOf at hn'
      split at hn' <;> cases hn'
    · exact h.writers n p hn'
  · intro heq
    cases heq
  · intro _
    refine ⟨?_, ?_⟩
    · show (ch.fds.dup2 ch.inFd 0).entry 1 = _
      rw [Descriptors.entry_dup2 hin, if_neg (by decide)]
      exact hone
    · show (ch.fds.dup2 ch.inFd 0).entry ch.writeFd = _
      rw [Descriptors.entry_dup2 hin, if_neg hzero]
      exact hwrite
  · intro _
    show (ch.fds.dup2 ch.inFd 0).entry 0 = _
    rw [Descriptors.entry_dup2 hin, if_pos rfl]
  · intro hout
    cases hout

/-- `dup2(fd[1], STDOUT_FILENO)` in the child of a command that is not the last. -/
theorem ChildWired.dupOut (h : ChildWired c ch) (hpc : ch.pc = .dupOut) :
    ChildWired c { ch with
      fds := if ch.redirected then ch.fds.dup2 ch.writeFd 1 else ch.fds, pc := .exec } := by
  obtain ⟨hone, hwrite⟩ := h.stdout (.inr hpc)
  have hin := h.input (by rw [hpc]; rfl)
  have hentry : ∀ n, (if ch.redirected then ch.fds.dup2 ch.writeFd 1 else ch.fds).entry n =
      if n = 1 then some (targetOf c ch.index) else ch.fds.entry n := by
    intro n
    unfold targetOf
    rw [h.redirected]
    cases hlast : c.isLast ch.index with
    | true =>
      by_cases hn : n = 1
      · simp [hn, hone]
      · simp [hn]
    | false =>
      simp only [Bool.not_false, if_true, Bool.false_eq_true, if_false]
      exact Descriptors.entry_dup2 hwrite 1 n
  constructor
  · exact h.redirected
  · exact h.cmd
  · intro n p hn
    have hn' := (hentry n).symm.trans hn
    split at hn'
    · unfold targetOf at hn'
      split at hn'
      · cases hn'
      · cases hn'
        exact .inr rfl
    · exact h.writers n p hn'
  · intro heq
    cases heq
  · intro heq
    rcases heq with heq | heq
    · cases heq
    · cases heq
  · intro _
    exact (hentry 0).trans hin
  · intro _
    exact hentry 1

/-- A step of the child leaves the interpreter alone. -/
theorem ChildStep.frame (step : ChildStep c s ch e s') : s'.pc = s.pc ∧ s'.fds = s.fds ∧
    s'.fd = s.fd ∧ s'.last = s.last ∧ s'.pipesNo = s.pipesNo := by
  cases step <;> exact ⟨rfl, rfl, rfl, rfl, rfl⟩

/-- It is the same command. -/
theorem Child.proceed_index (ch : Child σ) (next : Option σ) :
    (ch.proceed next).index = ch.index := by
  cases next <;> rfl

/-- **Every step of the child keeps its descriptors in order.** -/
theorem ChildWired.step (h : ChildWired c ch) (step : ChildStep c s ch e s') :
    ∃ ch', s'.child = some ch' ∧ ch'.index = ch.index ∧ ChildWired c ch' := by
  cases step with
  | dupIn hpc => exact ⟨_, rfl, rfl, h.dupIn hpc⟩
  | dupOut hpc => exact ⟨_, rfl, rfl, h.dupOut hpc⟩
  | execed hpc => exact ⟨_, rfl, rfl, h.goto hpc rfl rfl (by simp) (by simp)⟩
  | execFailed hpc => exact ⟨_, rfl, rfl, h.goto hpc rfl rfl (by simp) (by simp)⟩
  | readInherited hpc => exact ⟨_, rfl, rfl, h.goto hpc rfl rfl (by simp) (by simp)⟩
  | readPipe hpc => exact ⟨_, rfl, rfl, h.goto hpc rfl rfl (by simp) (by simp)⟩
  | readBad hpc => exact ⟨_, rfl, rfl, h.goto hpc rfl rfl (by simp) (by simp)⟩
  | beginWrite hpc => exact ⟨_, rfl, rfl, h.goto hpc rfl rfl (by simp) (by simp)⟩
  | finish => exact ⟨_, rfl, rfl, h.exit⟩
  | written hpc => exact ⟨_, rfl, Child.proceed_index .., h.proceed hpc⟩
  | writeInherited hpc => exact ⟨_, rfl, rfl, h.goto hpc rfl rfl (by simp) (by simp)⟩
  | writePipe hpc => exact ⟨_, rfl, rfl, h.goto hpc rfl rfl (by simp) (by simp)⟩
  | sigpipe => exact ⟨_, rfl, rfl, h.exit⟩
  | writeBad hpc => exact ⟨_, rfl, Child.proceed_index .., h.proceed hpc⟩

/-- What the interpreter's descriptors are depends on nothing else. -/
theorem Table.congr (h : Table c s) (hpc : s'.pc = s.pc) (hfds : s'.fds = s.fds)
    (hfd : s'.fd = s.fd) (hlast : s'.last = s.last) (hno : s'.pipesNo = s.pipesNo) :
    Table c s' := by
  unfold Table at h ⊢
  have hbetween : ∀ i, Between s i → Between s' i := by
    intro i h
    constructor
    · rw [hno]; exact h.pipesNo
    · rw [hfds]; exact h.stdout
    · rw [hfds, hlast]; exact h.source
    · rw [hlast]; exact h.last
    · rw [hfds, hlast]; exact h.lowest
    · unfold State.OnlyFirst; rw [hfds]; exact h.writers
  have hinside : ∀ i, Inside c s i → Inside c s' i := by
    intro i h
    constructor
    · exact h.command
    · rw [hno]; exact h.pipesNo
    · rw [hfds]; exact h.stdout
    · rw [hfds, hfd]; exact h.reader
    · rw [hlast]; exact h.last
    · rw [hlast, hfd]; exact h.lastFd
    · rw [hfd]; exact h.readFd
    · rw [hfd]; exact h.writeFd
    · rw [hlast, hfd]; exact h.lowest
  unfold State.OnlyFirst State.WithNewest at h ⊢
  rw [hpc, hfds, hfd, hlast, hno]
  split at h
  · exact h
  · exact hbetween _ h
  · exact ⟨hbetween _ h.1, h.2⟩
  · exact ⟨hinside _ h.1, h.2⟩
  · exact ⟨hinside _ h.1, h.2⟩
  · exact ⟨hinside _ h.1, h.2⟩
  · exact ⟨hinside _ h.1, h.2⟩
  · exact ⟨hinside _ h.1, h.2⟩
  · exact ⟨hinside _ h.1, h.2⟩
  · exact h
  · exact h

/-- **Every step keeps the descriptors in order.** -/
theorem Wired.step (h : Wired c s) (step : Step c s e s') : Wired c s' := by
  cases step with
  | interpreter move =>
    have htable := h.table.move move
    have hchild := h.child
    have hwired := h.wired
    have hold := h.table
    unfold Table at hold
    cases move with
    | fork hpc =>
      rw [hpc] at hold
      refine ⟨htable, rfl, ?_⟩
      intro ch hch
      cases hch
      exact childWired_fork hold.1 hold.2.1 hold.2.2.1 hold.2.2.2
    | waited => exact ⟨htable, rfl, fun ch hch => by cases hch⟩
    | waitNobody _ hnone => exact ⟨htable, by rw [hnone]; rfl, hwired⟩
    | firstPipe hpc => exact ⟨htable, by rw [hpc] at hchild; exact hchild, hwired⟩
    | enter hpc => exact ⟨htable, by rw [hpc] at hchild; exact hchild, hwired⟩
    | leave hpc => exact ⟨htable, by rw [hpc] at hchild; exact hchild, hwired⟩
    | pipe hpc => exact ⟨htable, by rw [hpc] at hchild; exact hchild, hwired⟩
    | closeWrite hpc => exact ⟨htable, by rw [hpc] at hchild; exact hchild, hwired⟩
    | dupRead hpc => exact ⟨htable, by rw [hpc] at hchild; exact hchild, hwired⟩
    | closeIn hpc => exact ⟨htable, by rw [hpc] at hchild; exact hchild, hwired⟩
    | next hpc => exact ⟨htable, by rw [hpc] at hchild; exact hchild, hwired⟩
    | closeLast hpc => exact ⟨htable, by rw [hpc] at hchild; exact hchild, hwired⟩
  | child hchild step =>
    obtain ⟨ch', hch', hindex, hwired⟩ := (h.wired _ hchild).step step
    obtain ⟨hpc, hfds, hfd, hlast, hno⟩ := step.frame
    constructor
    · exact h.table.congr hpc hfds hfd hlast hno
    · rw [hpc, h.child, hchild, hch']
      exact congrArg some hindex.symm
    · intro ch hch
      rw [hch'] at hch
      cases hch
      exact hwired

/-! ## What a child with its descriptors in order does -/

/-- The child is that of the command in whose iteration the interpreter is. -/
theorem Wired.inside (h : Wired c s) (hchild : s.child = some ch) : Inside c s ch.index := by
  have hforked := h.child
  rw [hchild] at hforked
  have htable := h.table
  unfold Table at htable
  cases hpc : s.pc with
  | closeWrite i =>
    rw [hpc] at hforked htable
    cases hforked
    exact htable.1
  | dupRead i =>
    rw [hpc] at hforked htable
    cases hforked
    exact htable.1
  | wait i =>
    rw [hpc] at hforked htable
    cases hforked
    exact htable.1
  | _ =>
    rw [hpc] at hforked
    cases hforked

/-- Only the first command reads from what was there before. -/
theorem sourceOf_inherited {i d : ℕ} (h : Handle.inherited d = sourceOf i) : i = 0 ∧ d = 0 := by
  unfold sourceOf at h
  split at h
  · rename_i hi
    cases h
    exact ⟨hi, rfl⟩
  · cases h

/-- The others read from their own pipe. -/
theorem sourceOf_readEnd {i q : ℕ} (h : Handle.readEnd q = sourceOf i) : i ≠ 0 ∧ q = i := by
  unfold sourceOf at h
  split at h
  · cases h
  · rename_i hi
    cases h
    exact ⟨hi, rfl⟩

/-- Nobody reads from the end of a pipe that is for writing. -/
theorem sourceOf_ne_writeEnd (i q : ℕ) : sourceOf i ≠ .writeEnd q := by
  unfold sourceOf
  split
  · intro h
    cases h
  · intro h
    cases h

/-- Nobody writes to the end that is for reading. -/
theorem targetOf_ne_readEnd (c : Setting σ) (i q : ℕ) : targetOf c i ≠ .readEnd q := by
  unfold targetOf
  split
  · intro h
    cases h
  · intro h
    cases h

/-- Only the last command writes to what was the interpreter's standard output. -/
theorem targetOf_last {k : ℕ} (h : c.command (k + 1) = none) : targetOf c k = .inherited 1 := by
  unfold targetOf
  rw [if_pos ((isLast_iff c k).mpr h)]

/-- An inner command writes to the pipe of the next one. -/
theorem targetOf_inner {k : ℕ} (h : c.command (k + 1) ≠ none) :
    targetOf c k = .writeEnd (k + 1) := by
  unfold targetOf
  rw [if_neg (fun hlast => h ((isLast_iff c k).mp hlast))]

/-- The interpreter keeps the read end of the child's pipe open. -/
theorem Wired.reader (h : Wired c s) (hchild : s.child = some ch) :
    s.readerOpen (ch.index + 1) = true := by
  have hreader := (h.inside hchild).reader
  unfold State.readerOpen
  rw [Bool.or_eq_true]
  exact .inl (Descriptors.holds_iff.mpr ⟨_, hreader⟩)

/-- A child writes to the interpreter's standard output or to its own pipe. -/
theorem ChildWired.target (h : ChildWired c ch) (hout : ch.pc.hasOutput = true) :
    (c.command (ch.index + 1) = none ∧ ch.fds.entry 1 = some (.inherited 1)) ∨
      c.command (ch.index + 1) ≠ none ∧ ch.fds.entry 1 = some (.writeEnd (ch.index + 1)) := by
  have heq := h.output hout
  by_cases hlast : c.command (ch.index + 1) = none
  · rw [targetOf_last hlast] at heq
    exact .inl ⟨hlast, heq⟩
  · rw [targetOf_inner hlast] at heq
    exact .inr ⟨hlast, heq⟩

/-- What command `k` can still read. -/
def State.available (s : State σ) (k : ℕ) : Data :=
  if k = 0 then s.input 0 else s.pipe k

/-- What command `k` reads has been taken, down to `rest`. -/
def State.consume (s : State σ) (k : ℕ) (rest : Data) : State σ :=
  if k = 0 then { s with input := Function.update s.input 0 rest }
  else { s with pipe := Function.update s.pipe k rest }

/-- What command `k` writes goes into its pipe, if another command is to read it. -/
def State.deliver (c : Setting σ) (s : State σ) (k : ℕ) (data : Data) : State σ :=
  if c.command (k + 1) = none then s
  else { s with pipe := Function.update s.pipe (k + 1) (s.pipe (k + 1) ++ data) }

/-- What a child does by itself. -/
inductive OwnStep (c : Setting σ) (ch : Child σ) : Option Event → Child σ → Prop
  | dupIn (pc : ch.pc = .dupIn) :
      OwnStep c ch none { ch with fds := ch.fds.dup2 ch.inFd 0, pc := .dupOut }
  | dupOut (pc : ch.pc = .dupOut) :
      OwnStep c ch none
        { ch with fds := if ch.redirected then ch.fds.dup2 ch.writeFd 1 else ch.fds, pc := .exec }
  | execed {p : σ} (pc : ch.pc = .exec) (exec : c.execvp ch.cmd = some p) :
      OwnStep c ch (some (.exec ch.index ch.cmd)) { ch with pc := .running p }
  | execFailed (pc : ch.pc = .exec) (exec : c.execvp ch.cmd = none) :
      OwnStep c ch (some (.exec ch.index ch.cmd))
        { ch with pc := .writing (c.buffered ++ "exec error\n".toList) none }
  | beginWrite {p : σ} {data : Data} {next : σ} (pc : ch.pc = .running p)
      (op : c.behave p = .write data next) :
      OwnStep c ch none { ch with pc := .writing data (some next) }
  | finish {p : σ} (pc : ch.pc = .running p) (op : c.behave p = .exit) : OwnStep c ch none ch.exit
  | written {next : Option σ} (pc : ch.pc = .writing [] next) :
      OwnStep c ch none (ch.proceed next)

/-- **What a step of a child with its descriptors in order is**: it reads from its source, writes
to its target, or does something by itself. No read or write of it fails. -/
inductive WiredStep (c : Setting σ) (s : State σ) (ch : Child σ) : Option Event → State σ → Prop
  | own {e : Option Event} {ch' : Child σ} (own : OwnStep c ch e ch') :
      WiredStep c s ch e (s.setChild ch')
  | read {p : σ} {size n : ℕ} {next : Data → σ} {data rest : Data} (pc : ch.pc = .running p)
      (op : c.behave p = .read size next)
      (moved : chunk (s.available ch.index) size n = some (data, rest)) :
      WiredStep c s ch (some (.read ch.index (some (sourceOf ch.index)) size data))
        ((s.consume ch.index rest).setChild { ch with pc := .running (next data) })
  | write {rest : Data} {next : Option σ} {n : ℕ} (pc : ch.pc = .writing rest next)
      (room : c.command (ch.index + 1) ≠ none →
        (s.pipe (ch.index + 1)).length + n ≤ c.capacity) :
      WiredStep c s ch (some (.write ch.index (some (targetOf c ch.index)) (rest.take n)))
        ((s.deliver c ch.index (rest.take n)).setChild
          { ch with pc := .writing (rest.drop n) next })

/-- **A step of a command keeps the connections.** -/
theorem ChildStep.wired (h : Wired c s) (hchild : s.child = some ch)
    (step : ChildStep c s ch e s') : WiredStep c s ch e s' := by
  have hch := h.wired ch hchild
  cases step with
  | dupIn hpc => exact .own (.dupIn hpc)
  | dupOut hpc => exact .own (.dupOut hpc)
  | execed hpc hexec => exact .own (.execed hpc hexec)
  | execFailed hpc hexec => exact .own (.execFailed hpc hexec)
  | beginWrite hpc hop => exact .own (.beginWrite hpc hop)
  | finish hpc hop => exact .own (.finish hpc hop)
  | written hpc => exact .own (.written hpc)
  | @readInherited p size d n next data rest hpc hop hsource moved =>
    have heq := hch.input (by rw [hpc]; rfl)
    rw [hsource] at heq
    obtain ⟨hzero, hd⟩ := sourceOf_inherited (Option.some.inj heq)
    subst hd
    have hread : WiredStep c s ch _ ((s.consume ch.index rest).setChild _) :=
      .read hpc hop (by unfold State.available; rw [if_pos hzero]; exact moved)
    unfold State.consume at hread
    rw [if_pos hzero, ← heq] at hread
    exact hread
  | @readPipe p size q n next data rest hpc hop hsource ready moved =>
    have heq := hch.input (by rw [hpc]; rfl)
    rw [hsource] at heq
    obtain ⟨hne, hq⟩ := sourceOf_readEnd (Option.some.inj heq)
    subst hq
    have hread : WiredStep c s ch _ ((s.consume ch.index rest).setChild _) :=
      .read hpc hop (by unfold State.available; rw [if_neg hne]; exact moved)
    unfold State.consume at hread
    rw [if_neg hne, ← heq] at hread
    exact hread
  | readBad hpc hop hsource =>
    have heq := hch.input (by rw [hpc]; rfl)
    rcases hsource with hnone | ⟨q, hwrite⟩
    · rw [hnone] at heq
      cases heq
    · rw [hwrite] at heq
      exact absurd (Option.some.inj heq).symm (sourceOf_ne_writeEnd ch.index q)
  | @writeInherited rest next d n hpc htarget =>
    have heq := hch.output (by rw [hpc]; rfl)
    rw [htarget] at heq
    have hlast : c.command (ch.index + 1) = none := by
      by_contra hinner
      rw [targetOf_inner hinner] at heq
      cases heq
    have hwrite := WiredStep.write (s := s) (n := n) hpc (fun hinner => absurd hlast hinner)
    unfold State.deliver at hwrite
    rw [if_pos hlast, ← heq] at hwrite
    exact hwrite
  | @writePipe rest next q n hpc htarget reader hpos hle room =>
    have heq := hch.output (by rw [hpc]; rfl)
    rw [htarget] at heq
    have hinner : c.command (ch.index + 1) ≠ none := by
      intro hlast
      rw [targetOf_last hlast] at heq
      cases heq
    rw [targetOf_inner hinner] at heq
    cases heq
    have hwrite := WiredStep.write (s := s) (n := n) hpc (fun _ => room)
    unfold State.deliver at hwrite
    rw [if_neg hinner, targetOf_inner hinner] at hwrite
    exact hwrite
  | sigpipe hpc htarget reader =>
    rcases hch.target (by rw [hpc]; rfl) with ⟨-, heq⟩ | ⟨-, heq⟩
    · rw [htarget] at heq
      cases heq
    · -- the read end is open in the interpreter
      rw [htarget] at heq
      cases heq
      rw [h.reader hchild] at reader
      cases reader
  | writeBad hpc htarget =>
    have heq := hch.output (by rw [hpc]; rfl)
    rcases htarget with hnone | ⟨q, hread⟩
    · rw [hnone] at heq
      cases heq
    · rw [hread] at heq
      exact absurd (Option.some.inj heq).symm (targetOf_ne_readEnd c ch.index q)

end SystemyOperacyjne.Pipeline
