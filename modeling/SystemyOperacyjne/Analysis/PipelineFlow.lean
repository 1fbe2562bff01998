import SystemyOperacyjne.Analysis.PipelineWiring

/-!
# What goes through the pipes

Command `k` writes to pipe `k + 1`, and command `k + 1` reads from it. What has been read of a
pipe and what is in it are together what has been written to it; nobody else writes, and the
write end is closed everywhere before command `k + 1` begins, so it reads to an end of file.
-/

set_option autoImplicit false

namespace SystemyOperacyjne.Pipeline

open Library

variable {σ : Type} {c : Setting σ} {s s' : State σ} {ch : Child σ} {e : Option Event}
  {l : List (Option Event)}

/-- What command `k` gets by an event. -/
def Event.readBy (k : ℕ) : Option Event → Data
  | some (.read j _ _ data) => if j = k then data else []
  | _ => []

/-- What command `k` writes by an event. -/
def Event.writtenBy (k : ℕ) : Option Event → Data
  | some (.write j _ data) => if j = k then data else []
  | _ => []

/-- What command `k` has read from its standard input. -/
def readBy (l : List (Option Event)) (k : ℕ) : Data :=
  l.flatMap (Event.readBy k)

/-- What command `k` has written to its standard output. -/
def writtenBy (l : List (Option Event)) (k : ℕ) : Data :=
  l.flatMap (Event.writtenBy k)

/-- What a command has read after one more event. -/
theorem readBy_concat (l : List (Option Event)) (e : Option Event) (k : ℕ) :
    readBy (l ++ [e]) k = readBy l k ++ Event.readBy k e := by
  unfold readBy
  rw [List.flatMap_append, List.flatMap_singleton]

/-- What it has written after one more event. -/
theorem writtenBy_concat (l : List (Option Event)) (e : Option Event) (k : ℕ) :
    writtenBy (l ++ [e]) k = writtenBy l k ++ Event.writtenBy k e := by
  unfold writtenBy
  rw [List.flatMap_append, List.flatMap_singleton]

/-- **What has been read and written**, in the state after the events `l`. -/
structure Flow (c : Setting σ) (l : List (Option Event)) (s : State σ) : Prop where
  wired : Wired c s
  first : readBy l 0 ++ s.input 0 = c.input 0
  pipes : ∀ k, c.command (k + 1) ≠ none → readBy l (k + 1) ++ s.pipe (k + 1) = writtenBy l k
  begun : ∀ k, s.pipesNo ≤ k + 1 → readBy l k = [] ∧ writtenBy l k = []
  exist : ∀ k, c.command k = none → readBy l k = []
  atEnd : ∀ k source size, 0 < size → some (.read (k + 1) source size []) ∈ l →
    readBy l (k + 1) = writtenBy l k ∧ k + 3 ≤ s.pipesNo
  sources : ∀ k source size data, some (.read k source size data) ∈ l → source = some (sourceOf k)
  targets : ∀ k target data, some (.write k target data) ∈ l → target = some (targetOf c k)

/-- Nothing has flowed in the beginning. -/
theorem flow_start : Flow c [] (start c) := by
  constructor
  · exact wired_start
  · rfl
  · intro k _
    rfl
  · intro k _
    exact ⟨rfl, rfl⟩
  · intro k _
    rfl
  · intro k source size _ h
    cases h
  · intro k source size data h
    cases h
  · intro k target data h
    cases h

/-- What a read takes and what it leaves are what there was. -/
theorem chunk_append {available data rest : Data} {size n : ℕ}
    (h : chunk available size n = some (data, rest)) : data ++ rest = available := by
  unfold chunk at h
  split at h
  · cases h
    exact List.take_append_drop n available
  · cases h

/-- A read takes nothing only where there is nothing. -/
theorem chunk_nil {available rest : Data} {size n : ℕ} (hsize : 0 < size)
    (h : chunk available size n = some ([], rest)) : available = [] := by
  unfold chunk at h
  split at h
  · rename_i hn
    by_cases hzero : n = 0
    · exact (hn.2.2 hzero).resolve_left (by omega)
    · have hlen := congrArg (fun r => r.1.length) (Option.some.inj h)
      simp only [List.length_take, List.length_nil] at hlen
      exact List.eq_nil_of_length_eq_zero (by omega)
  · cases h

/-- The event moves no bytes. -/
def Event.Silent (e : Option Event) : Prop :=
  (∀ k, Event.readBy k e = [] ∧ Event.writtenBy k e = []) ∧
    (∀ k source size data, e ≠ some (.read k source size data)) ∧
    ∀ k target data, e ≠ some (.write k target data)

/-- What the interpreter does shows nothing. -/
theorem silent_none : Event.Silent none :=
  ⟨fun _ => ⟨rfl, rfl⟩, fun _ _ _ _ => nofun, fun _ _ _ => nofun⟩

/-- What a child does by itself moves nothing. -/
theorem OwnStep.silent {ch' : Child σ} (own : OwnStep c ch e ch') : Event.Silent e := by
  cases own with
  | execed | execFailed => exact ⟨fun _ => ⟨rfl, rfl⟩, fun _ _ _ _ => nofun, fun _ _ _ => nofun⟩
  | dupIn | dupOut | beginWrite | finish | written => exact silent_none

/-- A step that neither reads nor writes. -/
theorem Flow.silent (h : Flow c l s) (he : Event.Silent e) (hwired : Wired c s')
    (hpipe : ∀ k, c.command (k + 1) ≠ none →
      readBy l (k + 1) ++ s'.pipe (k + 1) = writtenBy l k) (hinput : s'.input = s.input)
    (hno : s.pipesNo ≤ s'.pipesNo) : Flow c (l ++ [e]) s' := by
  obtain ⟨hmoves, hreads, hwrites⟩ := he
  have hread : ∀ k, readBy (l ++ [e]) k = readBy l k := by
    intro k
    rw [readBy_concat, (hmoves k).1, List.append_nil]
  have hwritten : ∀ k, writtenBy (l ++ [e]) k = writtenBy l k := by
    intro k
    rw [writtenBy_concat, (hmoves k).2, List.append_nil]
  have hmemRead : ∀ k source size data, some (.read k source size data) ∈ l ++ [e] →
      some (.read k source size data) ∈ l := by
    intro k source size data hev
    cases List.mem_append.mp hev with
    | inl hold => exact hold
    | inr hnew => exact absurd (List.mem_singleton.mp hnew).symm (hreads k source size data)
  have hmemWrite : ∀ k target data, some (.write k target data) ∈ l ++ [e] →
      some (.write k target data) ∈ l := by
    intro k target data hev
    cases List.mem_append.mp hev with
    | inl hold => exact hold
    | inr hnew => exact absurd (List.mem_singleton.mp hnew).symm (hwrites k target data)
  constructor
  · exact hwired
  · rw [hread, hinput]
    exact h.first
  · intro k hk
    rw [hread, hwritten]
    exact hpipe k hk
  · intro k hk
    rw [hread, hwritten]
    exact h.begun k (by omega)
  · intro k hk
    rw [hread]
    exact h.exist k hk
  · intro k source size hsize hev
    rw [hread, hwritten]
    obtain ⟨heq, hle⟩ := h.atEnd k source size hsize (hmemRead _ _ _ _ hev)
    exact ⟨heq, by omega⟩
  · intro k source size data hev
    exact h.sources k source size data (hmemRead _ _ _ _ hev)
  · intro k target data hev
    exact h.targets k target data (hmemWrite _ _ _ hev)

/-- A new pipe is empty, and nobody has used it. -/
theorem Flow.makePipe (h : Flow c l s) {k : ℕ} (hk : c.command (k + 1) ≠ none) :
    readBy l (k + 1) ++ s.makePipe.pipe (k + 1) = writtenBy l k := by
  unfold State.makePipe
  dsimp only
  by_cases heq : k + 1 = s.pipesNo
  · rw [heq, Function.update_self, ← heq, (h.begun k (by omega)).2, (h.begun (k + 1) (by omega)).1]
    rfl
  · rw [Function.update_of_ne heq]
    exact h.pipes k hk

/-- A step of the interpreter moves no data. -/
theorem Flow.move (h : Flow c l s) (move : Move c s s') : Flow c (l ++ [none]) s' := by
  have hwired := h.wired.step (.interpreter move)
  cases move with
  | firstPipe =>
    apply h.silent silent_none hwired
    · exact fun k hk => h.makePipe hk
    · rfl
    · exact Nat.le_succ _
  | pipe =>
    apply h.silent silent_none hwired
    · exact fun k hk => h.makePipe hk
    · rfl
    · exact Nat.le_succ _
  | _ =>
    apply h.silent silent_none hwired
    · exact h.pipes
    · rfl
    · exact Nat.le_refl _

/-- **Command `k` reads from its source.** -/
theorem Flow.read (h : Flow c l s) (hchild : s.child = some ch) (hwired : Wired c s')
    {source : Option Handle} {size : ℕ} {data : Data} (hsource : source = some (sourceOf ch.index))
    (hno : s'.pipesNo = s.pipesNo)
    (hfirst : ch.index = 0 → data ++ s'.input 0 = s.input 0)
    (hrest : ch.index ≠ 0 → s'.input 0 = s.input 0)
    (hpipe : ∀ k, ch.index = k + 1 → data ++ s'.pipe (k + 1) = s.pipe (k + 1) ∧
      (data = [] → 0 < size → s.pipe (k + 1) = []))
    (hother : ∀ k, ch.index ≠ k + 1 → s'.pipe (k + 1) = s.pipe (k + 1)) :
    Flow c (l ++ [some (.read ch.index source size data)]) s' := by
  have hinside := h.wired.inside hchild
  have hself : ∀ k, ch.index = k →
      readBy (l ++ [some (.read ch.index source size data)]) k = readBy l k ++ data := by
    intro k hk
    rw [readBy_concat]
    unfold Event.readBy
    dsimp only
    rw [if_pos hk]
  have hread : ∀ k, ch.index ≠ k →
      readBy (l ++ [some (.read ch.index source size data)]) k = readBy l k := by
    intro k hk
    rw [readBy_concat]
    unfold Event.readBy
    dsimp only
    rw [if_neg hk, List.append_nil]
  have hwritten : ∀ k,
      writtenBy (l ++ [some (.read ch.index source size data)]) k = writtenBy l k := by
    intro k
    rw [writtenBy_concat]
    exact List.append_nil _
  constructor
  · exact hwired
  · by_cases hk : ch.index = 0
    · rw [hself 0 hk, List.append_assoc, hfirst hk]
      exact h.first
    · rw [hread 0 hk, hrest hk]
      exact h.first
  · intro k hcommand
    rw [hwritten]
    by_cases hk : ch.index = k + 1
    · rw [hself _ hk, List.append_assoc, (hpipe k hk).1]
      exact h.pipes k hcommand
    · rw [hread _ hk, hother k hk]
      exact h.pipes k hcommand
  · intro k hk
    rw [hno] at hk
    have hne : ch.index ≠ k := by
      intro heq
      rw [hinside.pipesNo, heq] at hk
      omega
    rw [hread k hne, hwritten]
    exact h.begun k hk
  · intro k hk
    have hne : ch.index ≠ k := by
      intro heq
      rw [← heq] at hk
      exact hinside.command hk
    rw [hread k hne]
    exact h.exist k hk
  · intro k source' size' hsize hev
    rw [hwritten, hno]
    have hempty : ch.index = k + 1 → data = [] → 0 < size → s.pipe (k + 1) = [] :=
      fun hk => (hpipe k hk).2
    by_cases hk : ch.index = k + 1
    · rw [hself _ hk, hinside.pipesNo, hk]
      refine ⟨?_, by omega⟩
      have hcommand : c.command (k + 1) ≠ none := hk ▸ hinside.command
      have hpipes := h.pipes k hcommand
      -- at the end of the file the pipe is empty, so everything has been read
      have hdry : s.pipe (k + 1) = [] := by
        cases List.mem_append.mp hev with
        | inl hold =>
          have heq := (h.atEnd k source' size' hsize hold).1
          rw [← heq] at hpipes
          exact List.append_right_eq_self.mp hpipes
        | inr hnew =>
          have heq := Option.some.inj (List.mem_singleton.mp hnew)
          injection heq with _ _ hsize' hdata
          exact hempty hk hdata.symm (hsize' ▸ hsize)
      have hnothing : data = [] := by
        have hall := (hpipe k hk).1
        rw [hdry] at hall
        exact (List.append_eq_nil_iff.mp hall).1
      rw [hnothing, List.append_nil, ← hpipes, hdry, List.append_nil]
    · rw [hread _ hk]
      cases List.mem_append.mp hev with
      | inl hold => exact h.atEnd k source' size' hsize hold
      | inr hnew =>
        have heq := Option.some.inj (List.mem_singleton.mp hnew)
        injection heq with hindex
        exact absurd hindex.symm hk
  · intro k source' size' data' hev
    cases List.mem_append.mp hev with
    | inl hold => exact h.sources k source' size' data' hold
    | inr hnew =>
      have heq := Option.some.inj (List.mem_singleton.mp hnew)
      injection heq with hindex hsrc
      rw [hsrc, hsource, hindex]
  · intro k target data' hev
    cases List.mem_append.mp hev with
    | inl hold => exact h.targets k target data' hold
    | inr hnew => cases Option.some.inj (List.mem_singleton.mp hnew)

/-- **Command `k` writes to its target.** -/
theorem Flow.write (h : Flow c l s) (hchild : s.child = some ch) (hwired : Wired c s')
    {target : Option Handle} {data : Data} (htarget : target = some (targetOf c ch.index))
    (hno : s'.pipesNo = s.pipesNo) (hinput : s'.input = s.input)
    (hpipe : c.command (ch.index + 1) ≠ none →
      s'.pipe (ch.index + 1) = s.pipe (ch.index + 1) ++ data)
    (hother : ∀ k, k ≠ ch.index → s'.pipe (k + 1) = s.pipe (k + 1)) :
    Flow c (l ++ [some (.write ch.index target data)]) s' := by
  have hinside := h.wired.inside hchild
  have hread : ∀ k, readBy (l ++ [some (.write ch.index target data)]) k = readBy l k := by
    intro k
    rw [readBy_concat]
    exact List.append_nil _
  have hself : writtenBy (l ++ [some (.write ch.index target data)]) ch.index =
      writtenBy l ch.index ++ data := by
    rw [writtenBy_concat]
    unfold Event.writtenBy
    dsimp only
    rw [if_pos rfl]
  have hwritten : ∀ k, k ≠ ch.index →
      writtenBy (l ++ [some (.write ch.index target data)]) k = writtenBy l k := by
    intro k hk
    rw [writtenBy_concat]
    unfold Event.writtenBy
    dsimp only
    rw [if_neg (fun heq => hk heq.symm), List.append_nil]
  constructor
  · exact hwired
  · rw [hread, hinput]
    exact h.first
  · intro k hcommand
    rw [hread]
    by_cases hk : k = ch.index
    · subst hk
      rw [hself, hpipe hcommand, ← List.append_assoc, h.pipes _ hcommand]
    · rw [hwritten k hk, hother k hk]
      exact h.pipes k hcommand
  · intro k hk
    rw [hno] at hk
    have hne : k ≠ ch.index := by
      intro heq
      rw [hinside.pipesNo, heq] at hk
      omega
    rw [hread, hwritten k hne]
    exact h.begun k hk
  · intro k hk
    rw [hread]
    exact h.exist k hk
  · intro k source size hsize hev
    have hold : some (Event.read (k + 1) source size []) ∈ l := by
      cases List.mem_append.mp hev with
      | inl hold => exact hold
      | inr hnew => cases Option.some.inj (List.mem_singleton.mp hnew)
    obtain ⟨heq, hle⟩ := h.atEnd k source size hsize hold
    -- the next command has begun, so this one is over
    have hne : k ≠ ch.index := by
      intro heq
      rw [hinside.pipesNo, heq] at hle
      omega
    rw [hread, hwritten k hne, hno]
    exact ⟨heq, hle⟩
  · intro k source size data' hev
    cases List.mem_append.mp hev with
    | inl hold => exact h.sources k source size data' hold
    | inr hnew => cases Option.some.inj (List.mem_singleton.mp hnew)
  · intro k target' data' hev
    cases List.mem_append.mp hev with
    | inl hold => exact h.targets k target' data' hold
    | inr hnew =>
      have heq := Option.some.inj (List.mem_singleton.mp hnew)
      injection heq with hindex htgt
      rw [htgt, htarget, hindex]

/-- **A step of a command** moves what it reads and writes. -/
theorem Flow.child (h : Flow c l s) (hchild : s.child = some ch) (step : ChildStep c s ch e s') :
    Flow c (l ++ [e]) s' := by
  have hwired := h.wired.step (.child hchild step)
  cases step.wired h.wired hchild with
  | own own =>
    apply h.silent own.silent hwired
    · exact h.pipes
    · rfl
    · exact Nat.le_refl _
  | @read p size n next data rest hpc op moved =>
    unfold State.available at moved
    unfold State.consume at hwired ⊢
    by_cases hzero : ch.index = 0
    · rw [if_pos hzero] at moved hwired ⊢
      apply h.read hchild hwired rfl rfl
      · intro _
        show data ++ Function.update s.input 0 rest 0 = s.input 0
        rw [Function.update_self]
        exact chunk_append moved
      · exact fun hne => absurd hzero hne
      · intro k hk
        omega
      · exact fun _ _ => rfl
    · rw [if_neg hzero] at moved hwired ⊢
      apply h.read hchild hwired rfl rfl
      · exact fun heq => absurd heq hzero
      · exact fun _ => rfl
      · intro k hk
        constructor
        · show data ++ Function.update s.pipe ch.index rest (k + 1) = s.pipe (k + 1)
          rw [← hk, Function.update_self]
          exact chunk_append moved
        · intro hnil hsize
          subst hnil
          rw [← hk]
          exact chunk_nil hsize moved
      · intro k hk
        exact Function.update_of_ne (fun heq => hk heq.symm) ..
  | @write rest next n hpc =>
    unfold State.deliver at hwired ⊢
    by_cases hlast : c.command (ch.index + 1) = none
    · rw [if_pos hlast] at hwired ⊢
      apply h.write hchild hwired rfl rfl rfl
      · exact fun hinner => absurd hlast hinner
      · exact fun _ _ => rfl
    · rw [if_neg hlast] at hwired ⊢
      apply h.write hchild hwired rfl rfl rfl
      · intro _
        exact Function.update_self ..
      · intro k hk
        exact Function.update_of_ne (by omega) ..

/-- **It holds in every run.** -/
theorem flow (run : (program c).system.Run (start c) l s) : Flow c l s := by
  apply run.history_induction (I := Flow c)
  · intro l s e s' h hstep
    cases Step.of_system hstep with
    | interpreter move => exact h.move move
    | child hchild step => exact h.child hchild step
  · exact flow_start

/-- **The write end of its input is closed** when a command runs that is not the first. -/
theorem Wired.no_writer (h : Wired c s) (hchild : s.child = some ch) (hne : ch.index ≠ 0) :
    s.writerOpen ch.index = false := by
  have hself : ∀ n, s.fds.entry n ≠ some (.writeEnd ch.index) := by
    intro n hn
    have hforked := h.child
    rw [hchild] at hforked
    have htable := h.table
    unfold Table at htable
    cases hpc : s.pc with
    | closeWrite i =>
      rw [hpc] at hforked htable
      cases hforked
      cases htable.2 n ch.index hn with
      | inl hzero => exact hne hzero
      | inr hnewest => exact absurd hnewest.1 (by omega)
    | dupRead i =>
      rw [hpc] at htable
      exact hne (htable.2 n ch.index hn)
    | wait i =>
      rw [hpc] at htable
      exact hne (htable.2 n ch.index hn)
    | _ =>
      rw [hpc] at hforked
      cases hforked
  have hother : ∀ n, ch.fds.entry n ≠ some (.writeEnd ch.index) := by
    intro n hn
    cases (h.wired ch hchild).writers n ch.index hn with
    | inl hzero => exact hne hzero
    | inr hnext => omega
  unfold State.writerOpen
  rw [Bool.or_eq_false_iff, hchild]
  constructor
  · by_contra htrue
    obtain ⟨n, hn⟩ := Descriptors.holds_iff.mp (Bool.eq_true_of_not_eq_false htrue)
    exact hself n hn
  · by_contra htrue
    obtain ⟨n, hn⟩ := Descriptors.holds_iff.mp (Bool.eq_true_of_not_eq_false htrue)
    exact hother n hn

/-- A read may take as much as there is and was asked for. -/
theorem chunk_most (available : Data) (size : ℕ) :
    chunk available size (min size available.length) =
      some (available.take (min size available.length),
        available.drop (min size available.length)) := by
  unfold chunk
  rw [if_pos]
  refine ⟨Nat.min_le_left .., Nat.min_le_right .., ?_⟩
  intro hzero
  cases Nat.min_eq_zero_iff.mp hzero with
  | inl hsize => exact .inl hsize
  | inr hlen => exact .inr (List.eq_nil_of_length_eq_zero hlen)

/-- A command that is not the first does not wait in its reads. -/
theorem Wired.reads (h : Wired c s) (hchild : s.child = some ch) (hne : ch.index ≠ 0) {p : σ}
    {size n : ℕ} {next : Data → σ} {data rest : Data} (hpc : ch.pc = .running p)
    (hop : c.behave p = .read size next)
    (hmoved : chunk (s.pipe ch.index) size n = some (data, rest)) :
    execCmd c s ch n = some (some (.read ch.index (some (.readEnd ch.index)) size data),
      { s with pipe := Function.update s.pipe ch.index rest }.setChild
        { ch with pc := .running (next data) }) := by
  have hsource : ch.fds.entry 0 = some (.readEnd ch.index) := by
    rw [(h.wired ch hchild).input (by rw [hpc]; rfl)]
    unfold sourceOf
    rw [if_neg hne]
  unfold execCmd
  rw [hpc]
  dsimp only
  rw [hop]
  dsimp only
  rw [hsource]
  unfold State.readFrom
  dsimp only
  rw [if_neg (by rw [h.no_writer hchild hne]; simp), hmoved]
  rfl

/-- Where a command is that reads its input to the end and then writes a text. -/
inductive Stage
  | reading (text : Data)
  | writing (text : Data)
  | finished

/-- The line `a|b`: the first command writes `text`, the second one nothing. -/
def twoCommands (text : Data) : Setting Stage where
  line := "a|b".toList
  input _ := []
  opened := []
  buffered := "START\n".toList
  capacity := 65536
  execvp cmd := some (.reading (if cmd.head? = some (some ['a']) then text else []))
  behave
    | .reading text => .read 4096 fun data => if data.isEmpty then .writing text else .reading text
    | .writing text => .write text .finished
    | .finished => .exit

end SystemyOperacyjne.Pipeline
