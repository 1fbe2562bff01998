import SystemyOperacyjne.Analysis.PipelineFlow

/-!
# Commands that read their input and then write

For commands that read their input to its end and then write a finite text, what every command
reads and writes is determined: the text of command `k + 1` is what command `k` makes of its own.
In every state that is reached the texts are on their way, in the pipes and in the children.
-/

set_option autoImplicit false

namespace SystemyOperacyjne.Pipeline

open Library

variable {σ : Type} {c : Setting σ} {out : ℕ → Data → Data} {s s' : State σ} {ch : Child σ}
  {e : Option Event} {i : ℕ}

/-- In state `p` a command has `text` left to write, in as many pieces as it likes, and then
ends. -/
inductive Writes (behave : σ → Op σ) : σ → Data → Prop
  | exit {p : σ} (op : behave p = .exit) : Writes behave p []
  | write {p q : σ} {data rest : Data} (op : behave p = .write data q)
      (tail : Writes behave q rest) : Writes behave p (data ++ rest)

/-- In state `p` a command has read `acc`; it reads on to the end of its input, in pieces of any
size, and then writes what `f` makes of the input. -/
def Reading (behave : σ → Op σ) (f : Data → Data) (p : σ) (acc : Data) : Prop :=
  ∃ R : σ → Data → Prop, R p acc ∧ ∀ q acc, R q acc → ∃ size next, behave q = .read size next ∧
    0 < size ∧ (∀ data, data ≠ [] → data.length ≤ size → R (next data) (acc ++ data)) ∧
    Writes behave (next []) (f acc)

/-- Command `k` reads its input and then writes what `out k` makes of it. -/
def Setting.Filters (c : Setting σ) (out : ℕ → Data → Data) : Prop :=
  ∀ k cmd, c.command k = some cmd →
    ∃ p, c.execvp (argv cmd) = some p ∧ Reading c.behave (out k) p []

/-- What command `k` reads, and command `k - 1` writes. -/
def Setting.text (c : Setting σ) (out : ℕ → Data → Data) : ℕ → Data
  | 0 => c.input 0
  | k + 1 => out k (c.text out k)

/-- What command `k` has written, if another one is to read it. -/
def State.HasOut (c : Setting σ) (s : State σ) (k : ℕ) (text : Data) : Prop :=
  c.command (k + 1) ≠ none → s.pipe (k + 1) = text

/-- **Where a child is with its texts.** -/
def ChildTexts (c : Setting σ) (out : ℕ → Data → Data) (s : State σ) (ch : Child σ) : Prop :=
  match ch.pc with
  | .dupIn | .dupOut | .exec =>
    s.available ch.index = c.text out ch.index ∧ s.HasOut c ch.index []
  | .running p =>
    (∃ acc, Reading c.behave (out ch.index) p acc ∧
      acc ++ s.available ch.index = c.text out ch.index ∧ s.HasOut c ch.index []) ∨
    ∃ done rest, Writes c.behave p rest ∧ done ++ rest = c.text out (ch.index + 1) ∧
      s.HasOut c ch.index done
  | .writing data next =>
    ∃ done rest p, next = some p ∧ Writes c.behave p rest ∧
      done ++ (data ++ rest) = c.text out (ch.index + 1) ∧ s.HasOut c ch.index done
  | .exited => s.HasOut c ch.index (c.text out (ch.index + 1))

/-- The text of command `i` is there, if there is such a command. -/
def Supply (c : Setting σ) (out : ℕ → Data → Data) (s : State σ) (i : ℕ) : Prop :=
  c.command i ≠ none → s.available i = c.text out i

/-- The commands that are over. -/
def Pc.finished : Pc → ℕ
  | .firstPipe => 0
  | .test i | .pipe i | .fork i | .closeWrite i | .dupRead i | .wait i => i
  | .closeIn i | .next i => i + 1
  | .closeLast | .done => MAX_CMDS

/-- **The texts are on their way**, and those of the commands that are over have gone through
their pipes. -/
structure Texts (c : Setting σ) (out : ℕ → Data → Data) (s : State σ) : Prop where
  wired : Wired c s
  bound : ∀ p, (s.pipe p).length ≤ c.capacity
  supply : match s.pc with
    | .firstPipe => s.input 0 = c.input 0
    | .test i | .pipe i => Supply c out s i
    | .fork i => Supply c out s i ∧ s.HasOut c i []
    | .closeIn i | .next i => Supply c out s (i + 1)
    | _ => True
  passed : ∀ k, c.command (k + 1) ≠ none → k < s.pc.finished →
    (c.text out (k + 1)).length ≤ c.capacity
  child : ∀ ch, s.child = some ch → ChildTexts c out s ch

/-- A command that reads asks for one byte at least, and goes on with any. -/
theorem Reading.read {behave : σ → Op σ} {f : Data → Data} {p : σ} {acc : Data}
    (h : Reading behave f p acc) : ∃ size next, behave p = .read size next ∧ 0 < size ∧
      (∀ data, data ≠ [] → data.length ≤ size → Reading behave f (next data) (acc ++ data)) ∧
      Writes behave (next []) (f acc) := by
  obtain ⟨R, hp, hR⟩ := h
  obtain ⟨size, next, hop, hsize, hnext, hwrites⟩ := hR p acc hp
  refine ⟨size, next, hop, hsize, ?_, hwrites⟩
  intro data hne hle
  exact ⟨R, hnext data hne hle, hR⟩

/-- There is no command behind a missing one. -/
theorem fill_none {delimiters : List Char} {places : ℕ} {t : List Char} {i j : ℕ}
    (h : (fill delimiters places t)[i]?.join = none) (hij : i ≤ j) :
    (fill delimiters places t)[j]?.join = none := by
  induction places generalizing t i j with
  | zero => rfl
  | succ places ih =>
    cases hcut : strtok (delimiters.contains ·) t with
    | none =>
      simp only [fill, hcut] at h ⊢
      by_cases hj : j < places + 1
      · rw [List.getElem?_replicate, if_pos hj]
        rfl
      · rw [List.getElem?_eq_none (by rw [List.length_replicate]; omega)]
        rfl
    | some cut =>
      simp only [fill, hcut] at h ⊢
      cases i with
      | zero => cases h
      | succ i =>
        cases j with
        | zero => omega
        | succ j =>
          rw [List.getElem?_cons_succ] at h ⊢
          exact ih h (by omega)

/-- Behind the last command there is none. -/
theorem command_none {i j : ℕ} (h : c.command i = none) (hij : i ≤ j) : c.command j = none :=
  fill_none h hij

/-- The texts are right in the beginning. -/
theorem texts_start : Texts c out (start c) := by
  constructor
  · exact wired_start
  · exact fun _ => Nat.zero_le _
  · rfl
  · intro k _ hk
    exact absurd hk (Nat.not_lt_zero k)
  · intro ch h
    cases h

/-! ## The interpreter -/

/-- A new pipe leaves what command `i` can read. -/
theorem available_makePipe (h : i < s.pipesNo) : s.makePipe.available i = s.available i := by
  unfold State.available State.makePipe
  dsimp only
  split
  · rfl
  · exact Function.update_of_ne (by omega) ..

/-- A new pipe is within its capacity, too. -/
theorem bound_makePipe (h : ∀ p, (s.pipe p).length ≤ c.capacity) (p : ℕ) :
    (s.makePipe.pipe p).length ≤ c.capacity := by
  unfold State.makePipe
  dsimp only
  by_cases hp : p = s.pipesNo
  · rw [hp, Function.update_self]
    exact Nat.zero_le _
  · rw [Function.update_of_ne hp]
    exact h p

/-- A step of the interpreter keeps to the texts. -/
theorem Texts.move (h : Texts c out s) (move : Move c s s') : Texts c out s' := by
  have hwired := h.wired.step (.interpreter move)
  have hsupply := h.supply
  have hpassed := h.passed
  have hchild := h.child
  have htable := h.wired.table
  have hforked := h.wired.child
  unfold Table at htable
  cases move with
  | firstPipe hpc =>
    rw [hpc] at hsupply hforked
    refine ⟨hwired, bound_makePipe h.bound, fun _ => hsupply, ?_, ?_⟩
    · intro k _ hk
      exact absurd hk (Nat.not_lt_zero k)
    · intro ch hch
      have hch' : s.child = some ch := hch
      rw [hch'] at hforked
      cases hforked
  | enter hpc =>
    rw [hpc] at hsupply hpassed
    exact ⟨hwired, h.bound, hsupply, hpassed, hchild⟩
  | @leave i hpc hall =>
    rw [hpc] at hpassed
    refine ⟨hwired, h.bound, trivial, ?_, hchild⟩
    intro k hk _
    apply hpassed k hk
    -- there is no command from `i` on
    by_contra hge
    exact hk (command_none hall (by simp only [Pc.finished] at hge; omega))
  | @pipe i hpc =>
    rw [hpc] at hsupply hforked hpassed htable
    have hno := htable.1.pipesNo
    refine ⟨hwired, bound_makePipe h.bound, ⟨?_, ?_⟩, hpassed, ?_⟩
    · intro hcommand
      exact (available_makePipe (by omega)).trans (hsupply hcommand)
    · intro _
      show Function.update s.pipe s.pipesNo [] (i + 1) = []
      rw [← hno, Function.update_self]
    · intro ch hch
      have hch' : s.child = some ch := hch
      rw [hch'] at hforked
      cases hforked
  | fork hpc =>
    rw [hpc] at hsupply hpassed htable
    refine ⟨hwired, h.bound, trivial, hpassed, ?_⟩
    intro ch hch
    cases hch
    exact ⟨hsupply.1 htable.1.command, hsupply.2⟩
  | closeWrite hpc =>
    rw [hpc] at hpassed
    exact ⟨hwired, h.bound, trivial, hpassed, hchild⟩
  | dupRead hpc =>
    rw [hpc] at hpassed
    exact ⟨hwired, h.bound, trivial, hpassed, hchild⟩
  | waitNobody hpc hnone =>
    rw [hpc, hnone] at hforked
    cases hforked
  | @waited i ch hpc hsome hexited =>
    rw [hpc, hsome] at hforked
    have hindex : i = ch.index := Option.some.inj hforked
    have htexts := hchild ch hsome
    unfold ChildTexts at htexts
    rw [hexited] at htexts
    rw [hpc] at hpassed
    refine ⟨hwired, h.bound, ?_, ?_, ?_⟩
    · intro hcommand
      show s.pipe (i + 1) = _
      rw [hindex] at hcommand ⊢
      exact htexts hcommand
    · intro k hk hlt
      by_cases hki : k = i
      · rw [hki, hindex] at hk ⊢
        rw [← htexts hk]
        exact h.bound _
      · apply hpassed k hk
        simp only [Pc.finished] at hlt ⊢
        omega
    · intro ch hch
      cases hch
  | closeIn hpc =>
    rw [hpc] at hsupply hpassed
    exact ⟨hwired, h.bound, hsupply, hpassed, hchild⟩
  | next hpc =>
    rw [hpc] at hsupply hpassed
    exact ⟨hwired, h.bound, hsupply, hpassed, hchild⟩
  | closeLast hpc =>
    rw [hpc] at hpassed
    exact ⟨hwired, h.bound, trivial, hpassed, hchild⟩

/-! ## The child -/

/-- A read gives no more than it has been asked for. -/
theorem chunk_length {available data rest : Data} {size n : ℕ}
    (h : chunk available size n = some (data, rest)) : data.length ≤ size := by
  unfold chunk at h
  split at h
  · rename_i hn
    cases h
    rw [List.length_take]
    omega
  · cases h

/-- What a read leaves is not longer than what there was. -/
theorem chunk_rest {available data rest : Data} {size n : ℕ}
    (h : chunk available size n = some (data, rest)) : rest.length ≤ available.length := by
  have happend := congrArg List.length (chunk_append h)
  rw [List.length_append] at happend
  omega

/-- A command that is about to read has text left to write only when it has read everything. -/
theorem Writes.not_read {behave : σ → Op σ} {p : σ} {text : Data} (h : Writes behave p text)
    {size : ℕ} {next : Data → σ} (hop : behave p = .read size next) : False := by
  cases h with
  | exit op => rw [hop] at op; cases op
  | write op => rw [hop] at op; cases op

/-- **The child reads** a piece of its input, or meets its end. -/
theorem ChildTexts.read (h : ChildTexts c out s ch) {p : σ} {size n : ℕ} {next : Data → σ}
    {data rest : Data} (hpc : ch.pc = .running p) (hop : c.behave p = .read size next)
    (hmoved : chunk (s.available ch.index) size n = some (data, rest))
    (havailable : s'.available ch.index = rest)
    (hpipe : s'.pipe (ch.index + 1) = s.pipe (ch.index + 1)) :
    ChildTexts c out s' { ch with pc := .running (next data) } := by
  unfold ChildTexts at h
  rw [hpc] at h
  rcases h with ⟨acc, hreading, hacc, hout⟩ | ⟨done, left, hwrites, -, -⟩
  · obtain ⟨size', next', hop', hsize, hmore, hwrites⟩ := hreading.read
    rw [hop] at hop'
    injection hop' with hsize' hnext
    subst hsize'
    subst hnext
    have hout' : s'.HasOut c ch.index [] := by
      intro hk
      rw [hpipe]
      exact hout hk
    by_cases hdata : data = []
    · -- the end of the input: everything has been read
      subst hdata
      have hempty := chunk_nil hsize hmoved
      rw [hempty, List.append_nil] at hacc
      refine .inr ⟨[], _, hwrites, ?_, hout'⟩
      rw [hacc]
      rfl
    · refine .inl ⟨acc ++ data, hmore data hdata (chunk_length hmoved), ?_, hout'⟩
      show acc ++ data ++ s'.available ch.index = _
      rw [havailable, List.append_assoc, chunk_append hmoved]
      exact hacc
  · exact absurd hop (fun hop => hwrites.not_read hop)

/-- **The child writes** a piece of its text. -/
theorem ChildTexts.write (h : ChildTexts c out s ch) {rest : Data} {next : Option σ} {n : ℕ}
    (hpc : ch.pc = .writing rest next) (hpipe : c.command (ch.index + 1) ≠ none →
      s'.pipe (ch.index + 1) = s.pipe (ch.index + 1) ++ rest.take n) :
    ChildTexts c out s' { ch with pc := .writing (rest.drop n) next } := by
  unfold ChildTexts at h
  rw [hpc] at h
  obtain ⟨done, left, p, hnext, hwrites, htext, hout⟩ := h
  refine ⟨done ++ rest.take n, left, p, hnext, hwrites, ?_, ?_⟩
  · rw [← htext, List.append_assoc, ← List.append_assoc (rest.take n), List.take_append_drop]
  · intro hinner
    rw [hpipe hinner, hout hinner]

/-- `execvp` does not fail, and the command begins to read. -/
theorem Setting.Filters.exec (hfilters : c.Filters out) (h : Wired c s)
    (hchild : s.child = some ch) :
    ∃ p, c.execvp ch.cmd = some p ∧ Reading c.behave (out ch.index) p [] := by
  obtain ⟨cmd, hcmd⟩ := Option.ne_none_iff_exists'.mp (h.inside hchild).command
  rw [(h.wired ch hchild).cmd, hcmd]
  exact hfilters ch.index cmd hcmd

/-- A command that does not read is writing. -/
theorem ChildTexts.writes (h : ChildTexts c out s ch) {p : σ} (hpc : ch.pc = .running p)
    (hop : ∀ size next, c.behave p ≠ .read size next) : ∃ done rest, Writes c.behave p rest ∧
      done ++ rest = c.text out (ch.index + 1) ∧ s.HasOut c ch.index done := by
  unfold ChildTexts at h
  rw [hpc] at h
  rcases h with ⟨acc, hreading, -, -⟩ | hwriting
  · obtain ⟨size, next, hread, -⟩ := hreading.read
    exact absurd hread (hop size next)
  · exact hwriting

/-- **The child does something by itself.** -/
theorem ChildTexts.own (h : ChildTexts c out s ch) (hfilters : c.Filters out) (hwired : Wired c s)
    (hchild : s.child = some ch) {ch' : Child σ} (own : OwnStep c ch e ch') :
    ChildTexts c out (s.setChild ch') ch' := by
  have htexts := h
  unfold ChildTexts at h
  obtain ⟨p, hp, hreading⟩ := hfilters.exec hwired hchild
  cases own with
  | dupIn hpc =>
    rw [hpc] at h
    exact h
  | dupOut hpc =>
    rw [hpc] at h
    exact h
  | execed hpc hexec =>
    rw [hpc] at h
    rw [hp] at hexec
    cases hexec
    exact .inl ⟨[], hreading, h.1, h.2⟩
  | execFailed hpc hexec =>
    rw [hp] at hexec
    cases hexec
  | beginWrite hpc op =>
    obtain ⟨done, left, hwrites, htext, hout⟩ := htexts.writes hpc (by rw [op]; simp)
    cases hwrites with
    | exit hop => rw [op] at hop; cases hop
    | @write _ _ data rest hop tail =>
      rw [op] at hop
      cases hop
      exact ⟨done, rest, _, rfl, tail, htext, hout⟩
  | finish hpc op =>
    obtain ⟨done, left, hwrites, htext, hout⟩ := htexts.writes hpc (by rw [op]; simp)
    cases hwrites with
    | exit =>
      rw [List.append_nil] at htext
      rw [htext] at hout
      exact hout
    | write hop => rw [op] at hop; cases hop
  | written hpc =>
    rw [hpc] at h
    obtain ⟨done, left, p, hnext, hwrites, htext, hout⟩ := h
    subst hnext
    exact .inr ⟨done, left, hwrites, htext, hout⟩

/-- What is left to read after a read. -/
theorem State.consume_available (s : State σ) (k : ℕ) (rest : Data) :
    (s.consume k rest).available k = rest := by
  unfold State.available State.consume
  by_cases hk : k = 0
  · rw [hk, if_pos rfl, if_pos rfl]
    show Function.update s.input 0 rest 0 = rest
    exact Function.update_self ..
  · rw [if_neg hk, if_neg hk]
    show Function.update s.pipe k rest k = rest
    exact Function.update_self ..

/-- The other pipes are as they were. -/
theorem State.consume_pipe_of_ne (s : State σ) {k p : ℕ} (hp : p ≠ k) (rest : Data) :
    (s.consume k rest).pipe p = s.pipe p := by
  unfold State.consume
  split
  · rfl
  · exact Function.update_of_ne hp ..

/-- A read makes room. -/
theorem bound_consume (h : ∀ p, (s.pipe p).length ≤ c.capacity) {k : ℕ} {rest : Data}
    (hrest : rest.length ≤ (s.available k).length) (p : ℕ) :
    ((s.consume k rest).pipe p).length ≤ c.capacity := by
  by_cases hp : p = k
  · subst hp
    unfold State.available at hrest
    unfold State.consume
    by_cases hzero : p = 0
    · rw [if_pos hzero]
      exact h p
    · rw [if_neg hzero] at hrest ⊢
      show (Function.update s.pipe p rest p).length ≤ c.capacity
      rw [Function.update_self]
      exact Nat.le_trans hrest (h p)
  · rw [State.consume_pipe_of_ne s hp]
    exact h p

/-- What an inner command writes is in the pipe behind it. -/
theorem State.deliver_pipe (s : State σ) {k : ℕ} (hinner : c.command (k + 1) ≠ none)
    (data : Data) : (s.deliver c k data).pipe (k + 1) = s.pipe (k + 1) ++ data := by
  unfold State.deliver
  rw [if_neg hinner]
  exact Function.update_self ..

/-- What is written fits, if there is room for it. -/
theorem bound_deliver (h : ∀ p, (s.pipe p).length ≤ c.capacity) {k : ℕ} {data : Data}
    (hroom : c.command (k + 1) ≠ none → (s.pipe (k + 1)).length + data.length ≤ c.capacity)
    (p : ℕ) : ((s.deliver c k data).pipe p).length ≤ c.capacity := by
  unfold State.deliver
  split
  · exact h p
  · rename_i hinner
    show (Function.update s.pipe (k + 1) _ p).length ≤ c.capacity
    by_cases hp : p = k + 1
    · rw [hp, Function.update_self, List.length_append]
      exact hroom hinner
    · rw [Function.update_of_ne hp]
      exact h p

/-- The child's texts and the room in the pipes after a step of the child. -/
theorem Texts.childTexts (h : Texts c out s) (hfilters : c.Filters out)
    (hchild : s.child = some ch) (step : ChildStep c s ch e s') :
    (∀ p, (s'.pipe p).length ≤ c.capacity) ∧
      ∀ ch', s'.child = some ch' → ChildTexts c out s' ch' := by
  have htexts := h.child ch hchild
  cases step.wired h.wired hchild with
  | own own =>
    refine ⟨h.bound, fun ch' hch' => ?_⟩
    cases hch'
    exact htexts.own hfilters h.wired hchild own
  | @read p size n next data rest hpc op moved =>
    refine ⟨bound_consume h.bound (chunk_rest moved), fun ch' hch' => ?_⟩
    cases hch'
    exact htexts.read hpc op moved (State.consume_available s ch.index rest)
      (State.consume_pipe_of_ne s (Nat.succ_ne_self _) rest)
  | @write rest next n hpc room =>
    constructor
    · apply bound_deliver h.bound
      intro hinner
      have hroom := room hinner
      rw [List.length_take]
      omega
    · intro ch' hch'
      cases hch'
      exact htexts.write hpc fun hinner => State.deliver_pipe s hinner (rest.take n)

/-- **Every step keeps the texts on their way.** -/
theorem Texts.step (h : Texts c out s) (hfilters : c.Filters out) (step : Step c s e s') :
    Texts c out s' := by
  cases step with
  | interpreter move => exact h.move move
  | child hchild step =>
    obtain ⟨hbound, htexts⟩ := h.childTexts hfilters hchild step
    have hpc := step.frame.1
    have hforked := h.wired.child
    rw [hchild] at hforked
    constructor
    · exact h.wired.step (.child hchild step)
    · exact hbound
    · rw [hpc]
      cases hat : s.pc with
      | closeWrite => exact trivial
      | dupRead => exact trivial
      | wait => exact trivial
      | closeLast => exact trivial
      | done => exact trivial
      | _ =>
        rw [hat] at hforked
        cases hforked
    · rw [hpc]
      exact h.passed
    · exact htexts

/-- It holds in every run. -/
theorem Texts.run {l : List (Option Event)} (h : Texts c out s) (hfilters : c.Filters out)
    (run : (program c).system.Run s l s') : Texts c out s' := by
  apply run.history_induction (I := fun _ s => Texts c out s)
  · intro _ s e s' h hstep
    exact h.step hfilters (.of_system hstep)
  · exact h

end SystemyOperacyjne.Pipeline
