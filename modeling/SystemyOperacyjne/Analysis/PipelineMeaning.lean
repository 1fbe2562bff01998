import SystemyOperacyjne.Analysis.PipelineTexts

/-!
# What a line of filters computes

For commands that read their input to its end and then write a finite text, a line is the
composition of what they compute: whatever the order of the steps and the sizes of the reads and
writes, each command writes its text, from the front, and the interpreter's standard output gets
that of the last one and nothing else.
-/

set_option autoImplicit false

namespace SystemyOperacyjne.Pipeline

open Library

variable {σ : Type} {c : Setting σ} {out : ℕ → Data → Data} {s s' : State σ} {ch ch' : Child σ}
  {e : Option Event} {l : List (Option Event)} {wrote : Data} {k : ℕ}

/-! ## One command -/

/-- The child has not read its input to the end. -/
def ChildPc.Reads (behave : σ → Op σ) : ChildPc σ → Prop
  | .dupIn | .dupOut | .exec => True
  | .running p => ∃ size next, behave p = .read size next
  | _ => False

/-- The child has `rest` left to write. -/
def ChildPc.Left (behave : σ → Op σ) (rest : Data) : ChildPc σ → Prop
  | .running p => Writes behave p rest
  | .writing data next => ∃ p tail, next = some p ∧ Writes behave p tail ∧ rest = data ++ tail
  | .exited => rest = []
  | _ => False

/-- **What a child has written is the first part of its text.** -/
def ChildWrote (c : Setting σ) (out : ℕ → Data → Data) (ch : Child σ) (wrote : Data) : Prop :=
  ch.pc.Reads c.behave ∧ wrote = [] ∨
    ∃ rest, ch.pc.Left c.behave rest ∧ wrote ++ rest = c.text out (ch.index + 1)

/-- A command has written a part of its text at most. -/
theorem ChildWrote.prefix_text (h : ChildWrote c out ch wrote) :
    wrote <+: c.text out (ch.index + 1) := by
  rcases h with ⟨-, rfl⟩ | ⟨rest, -, htext⟩
  · exact List.nil_prefix
  · rw [← htext]
    exact List.prefix_append _ _

/-- A child that has ended has written its whole text. -/
theorem ChildWrote.exited (h : ChildWrote c out ch wrote) (hpc : ch.pc = .exited) :
    wrote = c.text out (ch.index + 1) := by
  rcases h with ⟨hreads, -⟩ | ⟨rest, hleft, htext⟩
  · rw [hpc] at hreads
    exact hreads.elim
  · rw [hpc] at hleft
    rw [show rest = [] from hleft, List.append_nil] at htext
    exact htext

/-- A child that is about to write has text left. -/
theorem ChildWrote.left (h : ChildWrote c out ch wrote) (hpc : ¬ ch.pc.Reads c.behave) :
    ∃ rest, ch.pc.Left c.behave rest ∧ wrote ++ rest = c.text out (ch.index + 1) := by
  rcases h with ⟨hreads, -⟩ | hleft
  · exact absurd hreads hpc
  · exact hleft

/-- What a child does by itself writes nothing. -/
theorem ChildWrote.own (h : ChildWrote c out ch wrote) (hfilters : c.Filters out)
    (hwired : Wired c s) (hchild : s.child = some ch) (own : OwnStep c ch e ch') :
    ChildWrote c out ch' wrote := by
  obtain ⟨p, hp, hreading⟩ := hfilters.exec hwired hchild
  cases own with
  | dupIn hpc | dupOut hpc =>
    rcases h with ⟨-, hwrote⟩ | ⟨rest, hleft, -⟩
    · exact .inl ⟨trivial, hwrote⟩
    · rw [hpc] at hleft
      exact hleft.elim
  | execed hpc hexec =>
    rw [hp] at hexec
    cases hexec
    obtain ⟨size, next, hop, -⟩ := hreading.read
    rcases h with ⟨-, hwrote⟩ | ⟨rest, hleft, -⟩
    · exact .inl ⟨⟨size, next, hop⟩, hwrote⟩
    · rw [hpc] at hleft
      exact hleft.elim
  | execFailed hpc hexec =>
    rw [hp] at hexec
    cases hexec
  | @beginWrite p data next hpc op =>
    obtain ⟨rest, hleft, htext⟩ := h.left <| by
      rw [hpc]
      rintro ⟨size, next', hread⟩
      rw [op] at hread
      cases hread
    rw [hpc] at hleft
    cases hleft with
    | exit hop =>
      rw [op] at hop
      cases hop
    | @write _ _ data rest hop tail =>
      rw [op] at hop
      cases hop
      exact .inr ⟨data ++ rest, ⟨_, rest, rfl, tail, rfl⟩, htext⟩
  | @finish p hpc op =>
    obtain ⟨rest, hleft, htext⟩ := h.left <| by
      rw [hpc]
      rintro ⟨size, next', hread⟩
      rw [op] at hread
      cases hread
    rw [hpc] at hleft
    cases hleft with
    | exit => exact .inr ⟨[], rfl, htext⟩
    | write hop =>
      rw [op] at hop
      cases hop
  | @written next hpc =>
    obtain ⟨rest, hleft, htext⟩ := h.left <| by
      rw [hpc]
      exact id
    rw [hpc] at hleft
    obtain ⟨p, tail, rfl, hwrites, hrest⟩ := hleft
    rw [hrest] at htext
    exact .inr ⟨tail, hwrites, htext⟩

/-- A read writes nothing; at the end of the input the text to write is known. -/
theorem ChildWrote.read (h : ChildWrote c out ch wrote) (htexts : ChildTexts c out s ch) {p : σ}
    {size n : ℕ} {next : Data → σ} {data rest : Data} (hpc : ch.pc = .running p)
    (hop : c.behave p = .read size next)
    (hmoved : chunk (s.available ch.index) size n = some (data, rest)) :
    ChildWrote c out { ch with pc := .running (next data) } wrote := by
  have hwrote : wrote = [] := by
    rcases h with ⟨-, hwrote⟩ | ⟨left, hleft, -⟩
    · exact hwrote
    · rw [hpc] at hleft
      exact (Writes.not_read hleft hop).elim
  unfold ChildTexts at htexts
  rw [hpc] at htexts
  rcases htexts with ⟨acc, hreading, hacc, -⟩ | ⟨done, left, hwrites, -, -⟩
  · obtain ⟨size', next', hop', hsize, hmore, hwrites⟩ := hreading.read
    rw [hop] at hop'
    injection hop' with hsize' hnext
    subst hsize'
    subst hnext
    by_cases hdata : data = []
    · subst hdata
      rw [chunk_nil hsize hmoved, List.append_nil] at hacc
      right
      refine ⟨_, hwrites, ?_⟩
      rw [hwrote, hacc]
      rfl
    · obtain ⟨size', next', hop', -⟩ := (hmore data hdata (chunk_length hmoved)).read
      exact .inl ⟨⟨size', next', hop'⟩, hwrote⟩
  · exact (hwrites.not_read hop).elim

/-- A write writes the next part of the text. -/
theorem ChildWrote.write (h : ChildWrote c out ch wrote) {rest : Data} {next : Option σ} (n : ℕ)
    (hpc : ch.pc = .writing rest next) :
    ChildWrote c out { ch with pc := .writing (rest.drop n) next } (wrote ++ rest.take n) := by
  obtain ⟨left, hleft, htext⟩ := h.left <| by
    rw [hpc]
    exact id
  rw [hpc] at hleft
  obtain ⟨p, tail, hnext, hwrites, rfl⟩ := hleft
  right
  refine ⟨rest.drop n ++ tail, ⟨p, tail, hnext, hwrites, rfl⟩, ?_⟩
  rw [← htext, List.append_assoc, ← List.append_assoc (rest.take n), List.take_append_drop]

/-! ## All commands -/

/-- **What has been written** in a line of filters. -/
structure Meaning (c : Setting σ) (out : ℕ → Data → Data) (l : List (Option Event))
    (s : State σ) : Prop where
  texts : Texts c out s
  finished : ∀ k, k < s.pc.finished → c.command k ≠ none → writtenBy l k = c.text out (k + 1)
  child : ∀ ch, s.child = some ch → ChildWrote c out ch (writtenBy l ch.index)
  later : ∀ k, c.command k ≠ none → s.pc.finished ≤ k → s.pc.forked ≠ some k → writtenBy l k = []
  noCommand : ∀ k, c.command k = none → writtenBy l k = []

/-- In the beginning nothing has been written. -/
theorem meaning_start : Meaning c out [] (start c) where
  texts := texts_start
  finished k hk _ := absurd hk (Nat.not_lt_zero k)
  child ch h := by cases h
  later _ _ _ _ := rfl
  noCommand _ _ := rfl

/-- A step of the interpreter writes nothing. -/
theorem writtenBy_silent (l : List (Option Event)) (k : ℕ) :
    writtenBy (l ++ [none]) k = writtenBy l k := by
  rw [writtenBy_concat]
  exact List.append_nil _

/-- The interpreter does not write. -/
theorem Meaning.move (h : Meaning c out l s) (move : Move c s s') :
    Meaning c out (l ++ [none]) s' := by
  have htexts := h.texts.move move
  have hforked := h.texts.wired.child
  have hover := h.finished
  have hlater := h.later
  simp only [← writtenBy_silent l] at hover hlater
  have hnoCommand : ∀ k, c.command k = none → writtenBy (l ++ [none]) k = [] := by
    intro k hk
    rw [writtenBy_silent]
    exact h.noCommand k hk
  have hchild : ∀ ch, s.child = some ch →
      ChildWrote c out ch (writtenBy (l ++ [none]) ch.index) := by
    intro ch hch
    rw [writtenBy_silent]
    exact h.child ch hch
  cases move with
  | firstPipe hpc | enter hpc | pipe hpc | closeWrite hpc | dupRead hpc | closeIn hpc | next hpc
  | closeLast hpc =>
    rw [hpc] at hover hlater
    exact ⟨htexts, hover, hchild, hlater, hnoCommand⟩
  | @leave i hpc hall =>
    rw [hpc] at hover
    refine ⟨htexts, ?_, hchild, ?_, hnoCommand⟩
    · intro k _ hk
      apply hover k _ hk
      -- there is no command from `i` on
      by_contra hge
      exact hk (command_none hall (by simp only [Pc.finished] at hge; omega))
    · intro k hk hle _
      exact absurd (command_of_le hle) hk
  | @fork i hpc =>
    have htable := h.texts.wired.table
    unfold Table at htable
    rw [hpc] at hover hlater htable
    refine ⟨htexts, hover, ?_, ?_, hnoCommand⟩
    · intro ch hch
      cases hch
      left
      refine ⟨trivial, hlater i htable.1.command (Nat.le_refl i) ?_⟩
      simp [Pc.forked]
    · intro k hk hle hne
      apply hlater k hk hle
      simp [Pc.forked]
  | waitNobody hpc hnone =>
    rw [hpc, hnone] at hforked
    cases hforked
  | @waited i ch hpc hsome hexited =>
    rw [hpc] at hover hlater
    rw [hpc, hsome] at hforked
    have hindex : i = ch.index := Option.some.inj hforked
    refine ⟨htexts, ?_, ?_, ?_, hnoCommand⟩
    · intro k hlt hk
      by_cases hki : k = i
      · rw [hki, hindex]
        exact (hchild ch hsome).exited hexited
      · apply hover k _ hk
        simp only [Pc.finished] at hlt ⊢
        omega
    · intro ch' hch'
      cases hch'
    · intro k hk hle _
      simp only [Pc.finished] at hle hlater
      apply hlater k hk (by omega)
      simp only [Pc.forked, ne_eq, Option.some.injEq]
      omega

/-- A child writes its own text, and of the others nothing. -/
theorem Meaning.childStep (h : Meaning c out l s) (hfilters : c.Filters out)
    (hchild : s.child = some ch) (step : ChildStep c s ch e s') : Meaning c out (l ++ [e]) s' := by
  have htexts := h.texts.step hfilters (.child hchild step)
  have hwired := step.wired h.texts.wired hchild
  have hwrote := h.child ch hchild
  have hforked := h.texts.wired.child
  rw [hchild] at hforked
  have hfinished : s.pc.finished = ch.index := by
    revert hforked
    cases s.pc <;> simp [Pc.forked, Pc.finished]
  -- what is written is written by this child
  have hothers : ∀ k, k ≠ ch.index → writtenBy (l ++ [e]) k = writtenBy l k := by
    intro k hk
    rw [writtenBy_concat]
    cases hwired with
    | own own => rw [(own.silent.1 k).2, List.append_nil]
    | read => exact List.append_nil _
    | write =>
      show _ ++ (if ch.index = k then _ else []) = _
      rw [if_neg hk.symm, List.append_nil]
  have hself : ∀ ch', s'.child = some ch' →
      ChildWrote c out ch' (writtenBy (l ++ [e]) ch'.index) := by
    intro ch' hch'
    rw [writtenBy_concat]
    cases hwired with
    | own own =>
      cases hch'
      have hindex : ch'.index = ch.index := by
        cases own with
        | @written next hpc => exact Child.proceed_index ch next
        | _ => rfl
      rw [hindex, (own.silent.1 ch.index).2, List.append_nil]
      exact hwrote.own hfilters h.texts.wired hchild own
    | read hpc op moved =>
      cases hch'
      show ChildWrote c out _ (writtenBy l ch.index ++ [])
      rw [List.append_nil]
      exact hwrote.read (h.texts.child ch hchild) hpc op moved
    | @write rest next n hpc room =>
      cases hch'
      show ChildWrote c out _ (writtenBy l ch.index ++ if ch.index = ch.index then _ else [])
      rw [if_pos rfl]
      exact hwrote.write n hpc
  have hpc := step.frame.1
  constructor
  · exact htexts
  · intro k hlt hk
    rw [hpc] at hlt
    rw [hothers k (by omega)]
    exact h.finished k hlt hk
  · exact hself
  · intro k hk hle hne
    rw [hpc] at hle hne
    rw [hothers k]
    · exact h.later k hk hle hne
    · rintro rfl
      exact hne hforked
  · intro k hk
    rw [hothers k]
    · exact h.noCommand k hk
    · rintro rfl
      exact (h.texts.wired.inside hchild).command hk

/-- It holds in every run. -/
theorem Meaning.run (hfilters : c.Filters out)
    (run : (program c).system.Run (start c) l s) : Meaning c out l s := by
  apply run.history_induction (I := fun l s => Meaning c out l s)
  · intro l s e s' h hstep
    cases Step.of_system hstep with
    | interpreter move => exact h.move move
    | child hchild step => exact h.childStep hfilters hchild step
  · exact meaning_start

/-- What a command has written is the first part of its text. -/
theorem Meaning.writtenBy_prefix (h : Meaning c out l s) (hk : c.command k ≠ none) :
    writtenBy l k <+: c.text out (k + 1) := by
  by_cases hover : k < s.pc.finished
  · have htext := h.finished k hover hk
    exact ⟨[], by rw [htext, List.append_nil]⟩
  · by_cases hforked : s.pc.forked = some k
    · have hchild := h.texts.wired.child
      rw [hforked] at hchild
      obtain ⟨ch, hch, hindex⟩ := Option.map_eq_some_iff.mp hchild.symm
      rw [← hindex]
      exact (h.child ch hch).prefix_text
    · rw [h.later k hk (Nat.not_lt.mp hover) hforked]
      exact List.nil_prefix

/-! ## The standard output -/

/-- What an event adds to the interpreter's standard output. -/
def Event.printed : Option Event → Data
  | some (.write _ (some (.inherited 1)) data) => data
  | _ => []

/-- What has been written to the interpreter's standard output. -/
def printed (l : List (Option Event)) : Data :=
  l.flatMap Event.printed

/-- The standard output gets what the last command writes. -/
theorem Meaning.printed_eq (h : Meaning c out l s) (hflow : Flow c l s)
    (hk : c.command k ≠ none) (hlast : c.command (k + 1) = none) :
    printed l = writtenBy l k := by
  unfold printed writtenBy
  apply List.flatMap_congr
  intro e he
  cases e with
  | none => rfl
  | some a =>
    cases a with
    | exec => rfl
    | read => rfl
    | write j target data =>
      have htarget := hflow.targets j target data he
      subst htarget
      show Event.printed (some (.write j (some (targetOf c j)) data)) = if j = k then data else []
      by_cases hj : j = k
      · rw [hj, if_pos rfl, targetOf_last hlast]
        rfl
      · rw [if_neg hj]
        by_cases hinner : c.command (j + 1) = none
        · -- behind the last command there is none that writes
          have hlt : k < j := by
            by_contra hge
            exact hk (command_none hinner (by omega))
          have hnothing : ∀ b, b ∉ Event.writtenBy j
              (some (.write j (some (targetOf c j)) data)) := by
            have hempty := h.noCommand j (command_none hlast hlt)
            unfold writtenBy at hempty
            rw [List.flatMap_eq_nil_iff] at hempty
            rw [hempty _ he]
            exact fun b => List.not_mem_nil
          have hdata : data = [] := by
            apply List.eq_nil_iff_forall_not_mem.mpr
            simpa [Event.writtenBy] using hnothing
          rw [hdata, targetOf_last hinner]
          rfl
        · rw [targetOf_inner hinner]
          rfl

/-- **A line of filters is their composition**, whatever the order of the steps and the sizes of
the reads and writes: the standard output of the interpreter gets nothing but the first part of
what the last command makes of what the one before it makes, and so on down to what the first one
makes of the standard input; when `execLine` is over, it has got all of it.
SOURCE: cw05/zad1/main.c:27-53, cw05/zad1/main.c:55-82 -/
theorem filters_compose (hfilters : c.Filters out)
    (run : (program c).system.Run (start c) l s) (hk : c.command k ≠ none)
    (hlast : c.command (k + 1) = none) :
    printed l <+: c.text out (k + 1) ∧ (s.pc = .done → printed l = c.text out (k + 1)) := by
  have h := Meaning.run hfilters run
  rw [h.printed_eq (flow run) hk hlast]
  refine ⟨h.writtenBy_prefix hk, ?_⟩
  intro hdone
  apply h.finished k _ hk
  rw [hdone]
  by_contra hge
  exact hk (command_of_le (Nat.not_lt.mp hge))

/-- Where a command is that writes its input and one character more. -/
inductive Copying
  | reading (acc : Data) (last : Char)
  | writing (text : Data)
  | finished

/-- The line `a|b`: the first command puts an `a` behind its input, the second a `b`. -/
def twoCopies (text : Data) : Setting Copying where
  line := "a|b".toList
  input _ := text
  opened := []
  buffered := []
  capacity := 65536
  execvp cmd := some (.reading [] (if cmd.head? = some (some ['a']) then 'a' else 'b'))
  behave
    | .reading acc last =>
      .read 2 fun data =>
        if data.isEmpty then .writing (acc ++ [last]) else .reading (acc ++ data) last
    | .writing text => .write text .finished
    | .finished => .exit

/-- What they make of their inputs. -/
def copies (k : ℕ) (text : Data) : Data :=
  text ++ [if k = 0 then 'a' else 'b']

/-- The second command copies what it reads. -/
theorem twoCopies_reading (text acc : Data) (last : Char) :
    Reading (twoCopies text).behave (fun t => t ++ [last]) (.reading acc last) acc := by
  refine ⟨fun q acc => q = .reading acc last, rfl, ?_⟩
  intro q acc hq
  subst hq
  refine ⟨2, _, rfl, by decide, ?_, ?_⟩
  · intro data hne _
    rw [if_neg (by rwa [List.isEmpty_iff])]
  · have hwrites : Writes (twoCopies text).behave (.writing (acc ++ [last]))
        (acc ++ [last] ++ []) := .write rfl (.exit rfl)
    rwa [List.append_nil] at hwrites

/-- Both commands are filters. -/
theorem twoCopies_filters (text : Data) : (twoCopies text).Filters copies := by
  intro k cmd hcmd
  have hthird : (twoCopies text).command 2 = none := rfl
  match k with
  | 0 =>
    have hfirst : (twoCopies text).command 0 = some ['a'] := rfl
    rw [hfirst] at hcmd
    cases hcmd
    exact ⟨.reading [] 'a', rfl, twoCopies_reading text [] 'a'⟩
  | 1 =>
    have hsecond : (twoCopies text).command 1 = some ['b'] := rfl
    rw [hsecond] at hcmd
    cases hcmd
    exact ⟨.reading [] 'b', rfl, twoCopies_reading text [] 'b'⟩
  | k + 2 =>
    rw [command_none hthird (by omega)] at hcmd
    cases hcmd

/-- Both commands read in pieces, and the first one also writes in pieces. -/
def copyRun : List (Option Event) × State Copying :=
  ((program (twoCopies ['x', 'y', 'z'])).exec (start (twoCopies ['x', 'y', 'z']))
    (List.replicate 4 .interpreter ++
      [.child 0, .child 0, .child 0, .child 1, .child 2, .child 0, .child 0, .child 3, .child 1,
        .child 0, .child 0] ++ List.replicate 10 .interpreter ++
      [.child 0, .child 0, .child 0, .child 2, .child 2, .child 0, .child 0, .child 5, .child 0,
        .child 0] ++ List.replicate 5 .interpreter)).get (by decide +kernel)

/-- It is a run of the program. -/
theorem run_copy : (program (twoCopies ['x', 'y', 'z'])).system.Run
    (start (twoCopies ['x', 'y', 'z'])) copyRun.1 copyRun.2 := by
  unfold copyRun
  exact Machine.exec_run_get _

/-- What the last command prints has gone through both. -/
theorem filters_compose_copies : printed copyRun.1 = "xyzab".toList := by
  have h := filters_compose (k := 1) (twoCopies_filters _) run_copy (by decide) rfl
  exact (h.2 (by decide +kernel)).trans (by decide)

end SystemyOperacyjne.Pipeline
