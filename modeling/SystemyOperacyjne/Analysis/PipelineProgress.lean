import SystemyOperacyjne.Analysis.PipelineTexts

/-!
# Whether the pipeline gets stuck

The interpreter waits for every command before it starts the next one, so nobody reads what a
command writes while it writes it: all of it has to fit in the pipe. A command with a longer text
waits for room, and the interpreter for the command. With texts that fit, and for the last
command with any text, every child can run to its exit and the interpreter to its end.
-/

set_option autoImplicit false

namespace SystemyOperacyjne.Pipeline

open Library

variable {σ : Type} {c : Setting σ} {out : ℕ → Data → Data} {s s' s'' : State σ} {ch : Child σ}
  {e : Option Event} {i : ℕ}

/-- The interpreter waits for the exit of a command that cannot go on. -/
def WaitForEachOther (c : Setting σ) (s : State σ) : Prop :=
  (∃ i, s.pc = .wait i) ∧ ∃ ch, s.child = some ch ∧ ch.pc ≠ .exited ∧
    ∀ n, execCmd c s ch n = none

/-- A run leads to another state. -/
def Reaches (c : Setting σ) (s s' : State σ) : Prop :=
  ∃ l, (program c).system.Run s l s'

/-- `execLine` can run to its end. -/
def CanFinish (c : Setting σ) (s : State σ) : Prop :=
  ∃ s', Reaches c s s' ∧ s'.pc = .done

/-- The text of every command but the last one fits in a pipe. -/
def Setting.Fits (c : Setting σ) (out : ℕ → Data → Data) : Prop :=
  ∀ k, c.command (k + 1) ≠ none → (c.text out (k + 1)).length ≤ c.capacity

/-- The empty run. -/
theorem Reaches.refl (s : State σ) : Reaches c s s :=
  ⟨[], .nil s⟩

/-- One run behind another. -/
theorem Reaches.trans (h : Reaches c s s') (h' : Reaches c s' s'') : Reaches c s s'' := by
  obtain ⟨l, hrun⟩ := h
  obtain ⟨l', hrun'⟩ := h'
  exact ⟨l ++ l', hrun.append hrun'⟩

/-- A step of the interpreter. -/
theorem Reaches.interpreter (h : execLine c s = some s') : Reaches c s s' := by
  refine ⟨[none], .single ⟨.interpreter, ?_⟩⟩
  show next c s .interpreter = _
  unfold next
  rw [h]
  rfl

/-- A step of the running command. -/
theorem Reaches.child (hchild : s.child = some ch) {n : ℕ}
    (h : execCmd c s ch n = some (e, s')) : Reaches c s s' := by
  refine ⟨[e], .single ⟨.child n, ?_⟩⟩
  show next c s (.child n) = _
  unfold next
  rw [hchild]
  exact h

/-- A run keeps to the texts. -/
theorem Texts.reaches (h : Texts c out s) (hfilters : c.Filters out) (hreach : Reaches c s s') :
    Texts c out s' := by
  obtain ⟨l, hrun⟩ := hreach
  exact h.run hfilters hrun

/-! ## The child runs until it exits or is kept waiting -/

/-- The child runs until it has exited or cannot go on; the interpreter stands still. -/
def ChildEnds (c : Setting σ) (s : State σ) : Prop :=
  ∃ s' ch, Reaches c s s' ∧ s'.pc = s.pc ∧ s'.child = some ch ∧
    (ch.pc = .exited ∨ ch.pc ≠ .exited ∧ ∀ n, execCmd c s' ch n = none)

/-- A command that ends from the next state ends from this one. -/
theorem ChildEnds.of_step (hchild : s.child = some ch) {n : ℕ}
    (h : execCmd c s ch n = some (e, s')) (hpc : s'.pc = s.pc) (hends : ChildEnds c s') :
    ChildEnds c s := by
  obtain ⟨s'', ch'', hreach, hpc', hrest⟩ := hends
  exact ⟨s'', ch'', (Reaches.child hchild h).trans hreach, hpc'.trans hpc, hrest⟩

/-- What a child does by itself it can do. -/
theorem OwnStep.execCmd {ch' : Child σ} (own : OwnStep c ch e ch') (s : State σ) (n : ℕ) :
    Pipeline.execCmd c s ch n = some (e, s.setChild ch') := by
  unfold Pipeline.execCmd
  cases own with
  | dupIn hpc => rw [hpc]
  | dupOut hpc => rw [hpc]
  | execed hpc hexec =>
    rw [hpc]
    dsimp only
    rw [hexec]
  | execFailed hpc hexec =>
    rw [hpc]
    dsimp only
    rw [hexec]
  | beginWrite hpc op =>
    rw [hpc]
    dsimp only
    rw [op]
  | finish hpc op =>
    rw [hpc]
    dsimp only
    rw [op]
  | written hpc =>
    rw [hpc]
    rfl

/-- So does one that has only done something on its own. -/
theorem ChildEnds.of_own (hchild : s.child = some ch) {ch' : Child σ} (own : OwnStep c ch e ch')
    (hends : ChildEnds c (s.setChild ch')) : ChildEnds c s :=
  .of_step hchild (own.execCmd s 0) rfl hends

/-- What a command does on its own keeps to the texts. -/
theorem Texts.own (h : Texts c out s) (hfilters : c.Filters out) (hchild : s.child = some ch)
    {ch' : Child σ} (own : OwnStep c ch e ch') : Texts c out (s.setChild ch') :=
  h.reaches hfilters (.child hchild (own.execCmd s 0))

/-- The child's read: it takes what there is, up to what it asked for. -/
theorem Wired.execCmd_read (h : Wired c s) (hchild : s.child = some ch) {p : σ} {size n : ℕ}
    {next : Data → σ} {data rest : Data} (hpc : ch.pc = .running p)
    (hop : c.behave p = .read size next)
    (hmoved : chunk (s.available ch.index) size n = some (data, rest)) :
    ∃ e s', execCmd c s ch n = some (e, s') ∧ s'.pc = s.pc ∧
      s'.child = some { ch with pc := .running (next data) } ∧ s'.available ch.index = rest := by
  unfold State.available at hmoved
  by_cases hzero : ch.index = 0
  · rw [if_pos hzero] at hmoved
    have hsource : ch.fds.entry 0 = some (.inherited 0) := by
      rw [(h.wired ch hchild).input (by rw [hpc]; rfl)]
      unfold sourceOf
      rw [if_pos hzero]
    refine ⟨some (.read ch.index (some (.inherited 0)) size data),
      { s with input := Function.update s.input 0 rest }.setChild
        { ch with pc := .running (next data) }, ?_, rfl, rfl, ?_⟩
    · unfold execCmd
      rw [hpc]
      dsimp only
      rw [hop]
      dsimp only
      rw [hsource]
      unfold State.readFrom
      dsimp only
      rw [hmoved]
      rfl
    · unfold State.available
      rw [if_pos hzero]
      show Function.update s.input 0 rest 0 = rest
      exact Function.update_self ..
  · rw [if_neg hzero] at hmoved
    refine ⟨_, _, h.reads hchild hzero hpc hop hmoved, rfl, rfl, ?_⟩
    unfold State.available
    rw [if_neg hzero]
    show Function.update s.pipe ch.index rest ch.index = rest
    exact Function.update_self ..

/-- The child's write, where there is room. -/
theorem Wired.execCmd_write (h : Wired c s) (hchild : s.child = some ch) {rest : Data}
    {next : Option σ} {n : ℕ} (hpc : ch.pc = .writing rest next) (hpos : 0 < n)
    (hle : n ≤ rest.length)
    (hroom : c.command (ch.index + 1) ≠ none →
      (s.pipe (ch.index + 1)).length + n ≤ c.capacity) :
    ∃ e s', execCmd c s ch n = some (e, s') ∧ s'.pc = s.pc ∧
      s'.child = some { ch with pc := .writing (rest.drop n) next } ∧
      (c.command (ch.index + 1) ≠ none →
        s'.pipe (ch.index + 1) = s.pipe (ch.index + 1) ++ rest.take n) := by
  have hne : rest ≠ [] := by
    intro hnil
    rw [hnil] at hle
    exact absurd hle (by simp only [List.length_nil]; omega)
  unfold execCmd
  rw [hpc]
  dsimp only
  rw [if_neg hne]
  unfold State.writeTo
  dsimp only
  rcases (h.wired ch hchild).target (by rw [hpc]; rfl) with ⟨hlast, htarget⟩ | ⟨hinner, htarget⟩
  · rw [htarget]
    dsimp only
    rw [if_pos ⟨hpos, hle⟩]
    exact ⟨_, _, rfl, rfl, rfl, fun hinner => absurd hlast hinner⟩
  · rw [htarget]
    dsimp only
    rw [if_pos (h.reader hchild), if_pos ⟨hpos, hle, hroom hinner⟩]
    refine ⟨_, _, rfl, rfl, rfl, ?_⟩
    intro _
    exact Function.update_self ..

/-- **A command waits for room** in a full pipe, whose read end is open. -/
theorem Wired.execCmd_full (h : Wired c s) (hchild : s.child = some ch) {rest : Data}
    {next : Option σ} (hpc : ch.pc = .writing rest next) (hne : rest ≠ [])
    (hinner : c.command (ch.index + 1) ≠ none)
    (hfull : c.capacity ≤ (s.pipe (ch.index + 1)).length) (n : ℕ) :
    execCmd c s ch n = none := by
  have htarget : ch.fds.entry 1 = some (.writeEnd (ch.index + 1)) := by
    cases (h.wired ch hchild).target (by rw [hpc]; rfl) with
    | inl hlast => exact absurd hlast.1 hinner
    | inr hpipe => exact hpipe.2
  unfold execCmd
  rw [hpc]
  dsimp only
  rw [if_neg hne]
  unfold State.writeTo
  dsimp only
  rw [htarget]
  dsimp only
  rw [if_pos (h.reader hchild), if_neg]
  intro hn
  omega

/-- **A piece of text**: the child writes all of it and goes on, or fills the pipe and waits. -/
theorem Texts.piece_ends (h : Texts c out s) (hfilters : c.Filters out)
    (hchild : s.child = some ch) {data : Data} {p : σ} (hpc : ch.pc = .writing data (some p))
    (hrest : ∀ s' ch', Texts c out s' → s'.child = some ch' → ch'.pc = .running p →
      ChildEnds c s') : ChildEnds c s := by
  by_cases hnil : data = []
  · subst hnil
    have hown : OwnStep c ch none (ch.proceed (some p)) := .written hpc
    exact .of_own hchild hown (hrest _ _ (h.own hfilters hchild hown) rfl rfl)
  · have hlen : 0 < data.length := List.length_pos_of_ne_nil hnil
    by_cases hfits : c.command (ch.index + 1) ≠ none →
        (s.pipe (ch.index + 1)).length + data.length ≤ c.capacity
    · obtain ⟨e, s₁, hstep, hpc₁, hchild₁, -⟩ :=
        h.wired.execCmd_write hchild hpc hlen (Nat.le_refl _) hfits
      rw [List.drop_length] at hchild₁
      have h₁ := h.reaches hfilters (.child hchild hstep)
      apply ChildEnds.of_step hchild hstep hpc₁
      have hown : OwnStep c _ none
          (Child.proceed { ch with pc := .writing [] (some p) } (some p)) := .written rfl
      exact .of_own hchild₁ hown (hrest _ _ (h₁.own hfilters hchild₁ hown) rfl rfl)
    · -- there is room for a part of it only
      obtain ⟨hinner, hlong⟩ := Classical.not_imp.mp hfits
      have hbound := h.bound (ch.index + 1)
      by_cases hfull : c.capacity ≤ (s.pipe (ch.index + 1)).length
      · refine ⟨s, ch, .refl s, rfl, hchild, .inr ⟨by rw [hpc]; simp, ?_⟩⟩
        exact h.wired.execCmd_full hchild hpc hnil hinner hfull
      · obtain ⟨e, s₁, hstep, hpc₁, hchild₁, hpipe⟩ :=
          h.wired.execCmd_write (n := c.capacity - (s.pipe (ch.index + 1)).length) hchild hpc
            (by omega) (by omega) (fun _ => by omega)
        have h₁ := h.reaches hfilters (.child hchild hstep)
        refine ⟨s₁, _, .child hchild hstep, hpc₁, hchild₁, .inr ⟨by simp, ?_⟩⟩
        apply h₁.wired.execCmd_full hchild₁ rfl
        · intro hdrop
          have hzero := congrArg List.length hdrop
          rw [List.length_drop, List.length_nil] at hzero
          omega
        · exact hinner
        · show c.capacity ≤ (s₁.pipe (ch.index + 1)).length
          rw [hpipe hinner, List.length_append, List.length_take]
          omega

/-- **The writing of a command ends**, by induction on what it has left to write. -/
theorem Writes.ends {p : σ} {text : Data} (hwrites : Writes c.behave p text)
    (hfilters : c.Filters out) (h : Texts c out s) (hchild : s.child = some ch)
    (hpc : ch.pc = .running p) : ChildEnds c s := by
  induction hwrites generalizing s ch with
  | exit op =>
    have hown : OwnStep c ch none ch.exit := .finish hpc op
    exact ⟨_, _, .child hchild (hown.execCmd s 0), rfl, rfl, .inl rfl⟩
  | @write p q data rest op _ ih =>
    have hown : OwnStep c ch none { ch with pc := .writing data (some q) } := .beginWrite hpc op
    apply ChildEnds.of_own hchild hown
    exact (h.own hfilters hchild hown).piece_ends hfilters rfl rfl fun s' ch' h' hchild' hpc' =>
      ih h' hchild' hpc'

/-- **A command that runs ends**, by induction on what it has left to read. -/
theorem Texts.running_ends (h : Texts c out s) (hfilters : c.Filters out)
    (hchild : s.child = some ch) {p : σ} (hpc : ch.pc = .running p) : ChildEnds c s := by
  induction hn : (s.available ch.index).length using Nat.strong_induction_on
    generalizing s ch p with
  | _ n ih =>
    have htexts := h.child ch hchild
    unfold ChildTexts at htexts
    rw [hpc] at htexts
    rcases htexts with ⟨acc, hreading, -, -⟩ | ⟨done, rest, hwrites, -, -⟩
    · obtain ⟨size, next, hop, hsize, -, hwrites⟩ := hreading.read
      have hmoved := chunk_most (s.available ch.index) size
      obtain ⟨e, s₁, hstep, hpc₁, hchild₁, havailable⟩ :=
        h.wired.execCmd_read hchild hpc hop hmoved
      have h₁ := h.reaches hfilters (.child hchild hstep)
      apply ChildEnds.of_step hchild hstep hpc₁
      by_cases hempty : s.available ch.index = []
      · rw [hempty, List.take_nil] at hchild₁
        exact hwrites.ends hfilters h₁ hchild₁ rfl
      · have hpos := List.length_pos_of_ne_nil hempty
        have hless : (s₁.available ch.index).length < n := by
          rw [havailable, List.length_drop]
          omega
        exact ih _ hless h₁ hchild₁ rfl rfl
    · exact hwrites.ends hfilters h hchild hpc

/-- **Every child ends**: it exits or waits for room. -/
theorem Texts.child_ends (h : Texts c out s) (hfilters : c.Filters out)
    (hchild : s.child = some ch) : ChildEnds c s := by
  have hexec : ∀ s ch, Texts c out s → s.child = some ch → ch.pc = .exec → ChildEnds c s := by
    intro s ch h hchild hpc
    obtain ⟨p, hrun, -⟩ := hfilters.exec h.wired hchild
    have hown : OwnStep c ch _ { ch with pc := .running p } := .execed hpc hrun
    exact .of_own hchild hown ((h.own hfilters hchild hown).running_ends hfilters rfl rfl)
  have hdupOut : ∀ s ch, Texts c out s → s.child = some ch → ch.pc = .dupOut → ChildEnds c s := by
    intro s ch h hchild hpc
    have hown : OwnStep c ch none _ := .dupOut hpc
    exact .of_own hchild hown (hexec _ _ (h.own hfilters hchild hown) rfl rfl)
  cases hpc : ch.pc with
  | dupIn =>
    have hown : OwnStep c ch none _ := .dupIn hpc
    exact .of_own hchild hown (hdupOut _ _ (h.own hfilters hchild hown) rfl rfl)
  | dupOut => exact hdupOut s ch h hchild hpc
  | exec => exact hexec s ch h hchild hpc
  | running p => exact h.running_ends hfilters hchild hpc
  | writing data next =>
    have htexts := h.child ch hchild
    unfold ChildTexts at htexts
    rw [hpc] at htexts
    obtain ⟨done, rest, p, hnext, hwrites, -, -⟩ := htexts
    subst hnext
    exact h.piece_ends hfilters hchild hpc fun s' ch' h' hchild' hpc' =>
      hwrites.ends hfilters h' hchild' hpc'
  | exited => exact ⟨s, ch, .refl s, rfl, hchild, .inl hpc⟩

/-- A child that cannot go on has exited, or it reads or writes. -/
theorem execCmd_none {n : ℕ} (h : execCmd c s ch n = none) : ch.pc = .exited ∨
    (∃ p size next, ch.pc = .running p ∧ c.behave p = .read size next) ∨
      ∃ rest next, rest ≠ [] ∧ ch.pc = .writing rest next := by
  unfold execCmd at h
  split at h
  · cases h
  · cases h
  · split at h <;> cases h
  · rename_i p hpc
    split at h
    · rename_i size next hop
      exact .inr (.inl ⟨p, size, next, hpc, hop⟩)
    · cases h
    · cases h
  · rename_i rest next hpc
    split at h
    · cases h
    · rename_i hne
      exact .inr (.inr ⟨rest, next, hne, hpc⟩)
  · rename_i hpc
    exact .inl hpc

/-- **What keeps a command waiting** is a text that does not fit in its pipe. -/
theorem Texts.waiting (h : Texts c out s) (hchild : s.child = some ch)
    (hlive : ch.pc ≠ .exited) (hwait : ∀ n, execCmd c s ch n = none) :
    c.command (ch.index + 1) ≠ none ∧ c.capacity < (c.text out (ch.index + 1)).length := by
  rcases (execCmd_none (hwait 0)).resolve_left hlive with
    ⟨p, size, next, hpc, hop⟩ | ⟨data, next, hne, hpc⟩
  · -- a read takes what there is
    obtain ⟨e, s₁, hstep, -⟩ :=
      h.wired.execCmd_read hchild hpc hop (chunk_most (s.available ch.index) size)
    rw [hwait] at hstep
    cases hstep
  · have htexts := h.child ch hchild
    unfold ChildTexts at htexts
    rw [hpc] at htexts
    obtain ⟨done, rest, p, -, -, htext, hout⟩ := htexts
    have hpos : 0 < data.length := List.length_pos_of_ne_nil hne
    -- not even one byte can be written
    have hfull : ¬ (c.command (ch.index + 1) ≠ none →
        (s.pipe (ch.index + 1)).length + 1 ≤ c.capacity) := by
      intro hroom
      obtain ⟨e, s₁, hstep, -⟩ := h.wired.execCmd_write hchild hpc Nat.zero_lt_one hpos hroom
      rw [hwait] at hstep
      cases hstep
    obtain ⟨hinner, hfull⟩ := Classical.not_imp.mp hfull
    refine ⟨hinner, ?_⟩
    have hlen := congrArg List.length htext
    rw [List.length_append, List.length_append, ← hout hinner] at hlen
    omega

/-! ## The interpreter -/

/-- How far the interpreter is from its end. -/
def Pc.rank : Pc → ℕ
  | .firstPipe => (MAX_CMDS + 2) * 10
  | .test i => (MAX_CMDS + 1 - i) * 10 + 9
  | .pipe i => (MAX_CMDS + 1 - i) * 10 + 8
  | .fork i => (MAX_CMDS + 1 - i) * 10 + 7
  | .closeWrite i => (MAX_CMDS + 1 - i) * 10 + 6
  | .dupRead i => (MAX_CMDS + 1 - i) * 10 + 5
  | .wait i => (MAX_CMDS + 1 - i) * 10 + 4
  | .closeIn i => (MAX_CMDS + 1 - i) * 10 + 3
  | .next i => (MAX_CMDS + 1 - i) * 10 + 2
  | .closeLast => 1
  | .done => 0

/-- The interpreter goes on, if it does not wait for a child. -/
theorem Wired.interpreter_onward (h : Wired c s) (hdone : s.pc ≠ .done)
    (hwait : ∀ i, s.pc ≠ .wait i) :
    ∃ s', execLine c s = some s' ∧ s'.pc.rank < s.pc.rank := by
  have htable := h.table
  unfold Table at htable
  unfold execLine
  cases hpc : s.pc with
  | firstPipe =>
    refine ⟨_, rfl, ?_⟩
    show (MAX_CMDS + 1 - 0) * 10 + 9 < (MAX_CMDS + 2) * 10
    decide
  | test i =>
    refine ⟨_, rfl, ?_⟩
    dsimp only
    split
    · exact Nat.lt_succ_self _
    · show 1 < (MAX_CMDS + 1 - i) * 10 + 9
      omega
  | pipe i => exact ⟨_, rfl, Nat.lt_succ_self _⟩
  | fork i => exact ⟨_, rfl, Nat.lt_succ_self _⟩
  | closeWrite i => exact ⟨_, rfl, Nat.lt_succ_self _⟩
  | dupRead i => exact ⟨_, rfl, Nat.lt_succ_self _⟩
  | wait i => exact absurd hpc (hwait i)
  | closeIn i => exact ⟨_, rfl, Nat.lt_succ_self _⟩
  | next i =>
    rw [hpc] at htable
    have hlt : i < MAX_CMDS := by
      by_contra hge
      exact htable.1.command (command_of_le (by omega))
    refine ⟨_, rfl, ?_⟩
    show (MAX_CMDS + 1 - (i + 1)) * 10 + 9 < (MAX_CMDS + 1 - i) * 10 + 2
    omega
  | closeLast => exact ⟨_, rfl, Nat.zero_lt_one⟩
  | done => exact absurd hpc hdone

/-- **The interpreter comes to its end, or it and a command wait for each other.** -/
theorem Texts.ends (h : Texts c out s) (hfilters : c.Filters out) :
    ∃ s', Reaches c s s' ∧ (s'.pc = .done ∨ WaitForEachOther c s') := by
  induction hn : s.pc.rank using Nat.strong_induction_on generalizing s with
  | _ n ih =>
    by_cases hdone : s.pc = .done
    · exact ⟨s, .refl s, .inl hdone⟩
    · by_cases hwait : ∃ i, s.pc = .wait i
      · obtain ⟨i, hpc⟩ := hwait
        have hforked := h.wired.child
        rw [hpc] at hforked
        cases hchild : s.child with
        | none =>
          rw [hchild] at hforked
          cases hforked
        | some ch =>
          obtain ⟨s₁, ch₁, hreach, hpc₁, hchild₁, hexited | ⟨hlive, hblocked⟩⟩ :=
            h.child_ends hfilters hchild
          · have hstep : execLine c s₁ = some { s₁ with child := none, pc := .closeIn i } := by
              unfold execLine
              rw [hpc₁, hpc]
              dsimp only
              rw [hchild₁]
              dsimp only
              rw [hexited]
            have hreach₂ := hreach.trans (.interpreter hstep)
            obtain ⟨s₂, hreach', hend⟩ := ih (Pc.closeIn i).rank
              (by rw [← hn, hpc]; exact Nat.lt_succ_self _) (h.reaches hfilters hreach₂) rfl
            exact ⟨s₂, hreach₂.trans hreach', hend⟩
          · exact ⟨s₁, hreach, .inr ⟨⟨i, hpc₁.trans hpc⟩, ch₁, hchild₁, hlive, hblocked⟩⟩
      · obtain ⟨s₁, hstep, hlt⟩ :=
          h.wired.interpreter_onward hdone fun i hpc => hwait ⟨i, hpc⟩
        have hreach : Reaches c s s₁ := .interpreter hstep
        obtain ⟨s₂, hreach', hend⟩ := ih _ (hn ▸ hlt) (h.reaches hfilters hreach) rfl
        exact ⟨s₂, hreach.trans hreach', hend⟩

/-- **Nobody waits for each other** when the texts fit. -/
theorem Texts.not_waiting (h : Texts c out s) (hfits : c.Fits out) : ¬ WaitForEachOther c s := by
  intro ⟨_, ch, hchild, hlive, hwait⟩
  obtain ⟨hinner, hlong⟩ := h.waiting hchild hlive hwait
  have hle := hfits ch.index hinner
  omega

/-- **When the pipeline does not get stuck**: for commands that read their input and then write a
finite text, in no state that is reached the interpreter and a command wait for each other, and
from each `execLine` can run to its end, exactly if the text of every command but the last
one fits in a pipe.
SOURCE: cw05/zad1/main.c:38-53, cw05/zad1/main.c:63-82 -/
theorem never_stuck_iff (hfilters : c.Filters out) :
    (∀ s, (program c).system.Reachable s → ¬ WaitForEachOther c s ∧ CanFinish c s) ↔
      c.Fits out := by
  constructor
  · intro hall k hk
    have hstart : Texts c out (start c) := texts_start
    obtain ⟨s, hreach, hend⟩ := hstart.ends hfilters
    have hreachable : (program c).system.Reachable s := by
      obtain ⟨l, hrun⟩ := hreach
      exact ⟨start c, l, rfl, hrun⟩
    have hdone := hend.resolve_right (hall s hreachable).1
    apply (hstart.reaches hfilters hreach).passed k hk
    -- every command is over
    rw [hdone]
    by_contra hge
    exact hk (command_of_le (Nat.le_succ_of_le (Nat.le_of_not_lt hge)))
  · intro hfits s hreachable
    obtain ⟨s₀, l, hinit, hrun⟩ := hreachable
    rw [show s₀ = start c from hinit] at hrun
    have h : Texts c out s := texts_start.run hfilters hrun
    refine ⟨h.not_waiting hfits, ?_⟩
    obtain ⟨s', hreach, hend⟩ := h.ends hfilters
    refine ⟨s', hreach, hend.resolve_right ?_⟩
    exact (h.reaches hfilters hreach).not_waiting hfits

/-- What the commands of the line `a|b` make of their inputs. -/
def twoTexts (text : Data) (k : ℕ) (_ : Data) : Data :=
  if k = 0 then text else []

/-- The second command reads everything and writes its text. -/
theorem twoCommands_reading (text t : Data) :
    Reading (twoCommands text).behave (fun _ => t) (.reading t) [] := by
  refine ⟨fun q _ => q = .reading t, rfl, ?_⟩
  intro q acc hq
  subst hq
  refine ⟨4096, _, rfl, by decide, ?_, ?_⟩
  · intro data hne _
    rw [if_neg (by rwa [List.isEmpty_iff])]
  · have hwrites : Writes (twoCommands text).behave (.writing t) (t ++ []) :=
      .write rfl (.exit rfl)
    rwa [List.append_nil] at hwrites

/-- Both commands are filters. -/
theorem twoCommands_filters (text : Data) : (twoCommands text).Filters (twoTexts text) := by
  intro k cmd hcmd
  have hthird : (twoCommands text).command 2 = none := rfl
  match k with
  | 0 =>
    have hfirst : (twoCommands text).command 0 = some ['a'] := rfl
    rw [hfirst] at hcmd
    cases hcmd
    exact ⟨.reading text, rfl, twoCommands_reading text text⟩
  | 1 =>
    have hsecond : (twoCommands text).command 1 = some ['b'] := rfl
    rw [hsecond] at hcmd
    cases hcmd
    exact ⟨.reading [], rfl, twoCommands_reading text []⟩
  | k + 2 =>
    rw [command_none hthird (by omega)] at hcmd
    cases hcmd

/-- One byte fits into a pipe. -/
theorem never_stuck_iff_oneByte :
    (∀ s, (program (twoCommands ['x'])).system.Reachable s →
      ¬ WaitForEachOther (twoCommands ['x']) s ∧ CanFinish (twoCommands ['x']) s) ↔
      (twoCommands ['x']).Fits (twoTexts ['x']) :=
  never_stuck_iff (twoCommands_filters ['x'])

/-- A text of one byte more than a pipe takes. -/
def longText : Data := List.replicate 65537 'x'

/-- **A pipeline that gets stuck**: the first of two commands writes one byte too much, waits for
room, and the interpreter waits for it. -/
theorem pipeline_stuck : (twoCommands longText).Filters (twoTexts longText) ∧
    ¬ ∀ s, (program (twoCommands longText)).system.Reachable s →
      ¬ WaitForEachOther (twoCommands longText) s ∧ CanFinish (twoCommands longText) s := by
  refine ⟨twoCommands_filters longText, ?_⟩
  intro hall
  have hstart : Texts (twoCommands longText) (twoTexts longText) (start (twoCommands longText)) :=
    texts_start
  obtain ⟨s, hreach, hend⟩ := hstart.ends (twoCommands_filters longText)
  have hreachable : (program (twoCommands longText)).system.Reachable s := by
    obtain ⟨l, hrun⟩ := hreach
    exact ⟨_, l, rfl, hrun⟩
  have hdone := hend.resolve_right (hall s hreachable).1
  have hfits := (hstart.reaches (twoCommands_filters longText) hreach).passed 0
    (by rw [show (twoCommands longText).command (0 + 1) = some ['b'] from rfl]; simp)
    (by rw [hdone]; decide)
  have hlength : ((twoCommands longText).text (twoTexts longText) 1).length = 65537 := by
    show longText.length = 65537
    unfold longText
    exact List.length_replicate
  rw [hlength] at hfits
  exact absurd hfits (by decide)

end SystemyOperacyjne.Pipeline
