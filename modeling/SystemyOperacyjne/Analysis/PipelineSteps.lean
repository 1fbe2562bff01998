import SystemyOperacyjne.Model.Pipeline

/-!
# The steps of the pipeline interpreter

What a step of the interpreter and what a step of a child is, one case a kind of step, and the
arrays of commands and words.
-/

set_option autoImplicit false

namespace SystemyOperacyjne.Pipeline

open Library

variable {σ : Type} {c : Setting σ} {s s' : State σ} {ch : Child σ} {e : Option Event}

/-- **What a step of the interpreter is.** -/
inductive Move (c : Setting σ) (s : State σ) : State σ → Prop
  | firstPipe (pc : s.pc = .firstPipe) : Move c s { s.makePipe with last := 0, pc := .test 0 }
  | enter {i : ℕ} (pc : s.pc = .test i) (command : c.command i ≠ none) :
      Move c s { s with pc := .pipe i }
  | leave {i : ℕ} (pc : s.pc = .test i) (all : c.command i = none) :
      Move c s { s with pc := .closeLast }
  | pipe {i : ℕ} (pc : s.pc = .pipe i) : Move c s { s.makePipe with pc := .fork i }
  | fork {i : ℕ} (pc : s.pc = .fork i) :
      Move c s { s with child := some (s.fork c i), pc := .closeWrite i }
  | closeWrite {i : ℕ} (pc : s.pc = .closeWrite i) :
      Move c s { s with fds := s.fds.close s.fd.2, pc := .dupRead i }
  | dupRead {i : ℕ} (pc : s.pc = .dupRead i) :
      Move c s { s with fds := s.fds.dup2 s.fd.1 0, pc := .wait i }
  | waitNobody {i : ℕ} (pc : s.pc = .wait i) (child : s.child = none) :
      Move c s { s with pc := .closeIn i }
  | waited {i : ℕ} {ch : Child σ} (pc : s.pc = .wait i) (child : s.child = some ch)
      (exited : ch.pc = .exited) : Move c s { s with child := none, pc := .closeIn i }
  | closeIn {i : ℕ} (pc : s.pc = .closeIn i) :
      Move c s { s with fds := s.fds.close s.last, pc := .next i }
  | next {i : ℕ} (pc : s.pc = .next i) :
      Move c s { s with last := s.fd.1, fds := s.fds.close s.fd.2, pc := .test (i + 1) }
  | closeLast (pc : s.pc = .closeLast) :
      Move c s { s with fds := s.fds.close s.fd.1, pc := .done }

/-- **What a step of the child is.** -/
inductive ChildStep (c : Setting σ) (s : State σ) (ch : Child σ) : Option Event → State σ → Prop
  | dupIn (pc : ch.pc = .dupIn) :
      ChildStep c s ch none (s.setChild { ch with fds := ch.fds.dup2 ch.inFd 0, pc := .dupOut })
  | dupOut (pc : ch.pc = .dupOut) :
      ChildStep c s ch none (s.setChild
        { ch with fds := if ch.redirected then ch.fds.dup2 ch.writeFd 1 else ch.fds, pc := .exec })
  | execed {p : σ} (pc : ch.pc = .exec) (exec : c.execvp ch.cmd = some p) :
      ChildStep c s ch (some (.exec ch.index ch.cmd)) (s.setChild { ch with pc := .running p })
  | execFailed (pc : ch.pc = .exec) (exec : c.execvp ch.cmd = none) :
      ChildStep c s ch (some (.exec ch.index ch.cmd))
        (s.setChild { ch with pc := .writing (c.buffered ++ "exec error\n".toList) none })
  | readInherited {p : σ} {size d n : ℕ} {next : Data → σ} {data rest : Data}
      (pc : ch.pc = .running p) (op : c.behave p = .read size next)
      (source : ch.fds.entry 0 = some (.inherited d))
      (moved : chunk (s.input d) size n = some (data, rest)) :
      ChildStep c s ch (some (.read ch.index (some (.inherited d)) size data))
        ({ s with input := Function.update s.input d rest }.setChild
          { ch with pc := .running (next data) })
  | readPipe {p : σ} {size q n : ℕ} {next : Data → σ} {data rest : Data}
      (pc : ch.pc = .running p) (op : c.behave p = .read size next)
      (source : ch.fds.entry 0 = some (.readEnd q))
      (ready : ¬ (s.pipe q = [] ∧ 0 < size ∧ s.writerOpen q = true))
      (moved : chunk (s.pipe q) size n = some (data, rest)) :
      ChildStep c s ch (some (.read ch.index (some (.readEnd q)) size data))
        ({ s with pipe := Function.update s.pipe q rest }.setChild
          { ch with pc := .running (next data) })
  | readBad {p : σ} {size : ℕ} {next : Data → σ} (pc : ch.pc = .running p)
      (op : c.behave p = .read size next)
      (source : ch.fds.entry 0 = none ∨ ∃ q, ch.fds.entry 0 = some (.writeEnd q)) :
      ChildStep c s ch (some (.read ch.index (ch.fds.entry 0) size []))
        (s.setChild { ch with pc := .running (next []) })
  | beginWrite {p : σ} {data : Data} {next : σ} (pc : ch.pc = .running p)
      (op : c.behave p = .write data next) :
      ChildStep c s ch none (s.setChild { ch with pc := .writing data (some next) })
  | finish {p : σ} (pc : ch.pc = .running p) (op : c.behave p = .exit) :
      ChildStep c s ch none (s.setChild ch.exit)
  | written {next : Option σ} (pc : ch.pc = .writing [] next) :
      ChildStep c s ch none (s.setChild (ch.proceed next))
  | writeInherited {rest : Data} {next : Option σ} {d n : ℕ} (pc : ch.pc = .writing rest next)
      (target : ch.fds.entry 1 = some (.inherited d)) (hpos : 0 < n) (hle : n ≤ rest.length) :
      ChildStep c s ch (some (.write ch.index (some (.inherited d)) (rest.take n)))
        (s.setChild { ch with pc := .writing (rest.drop n) next })
  | writePipe {rest : Data} {next : Option σ} {q n : ℕ} (pc : ch.pc = .writing rest next)
      (target : ch.fds.entry 1 = some (.writeEnd q)) (reader : s.readerOpen q = true)
      (hpos : 0 < n) (hle : n ≤ rest.length) (room : (s.pipe q).length + n ≤ c.capacity) :
      ChildStep c s ch (some (.write ch.index (some (.writeEnd q)) (rest.take n)))
        ({ s.setChild { ch with pc := .writing (rest.drop n) next } with
          pipe := Function.update s.pipe q (s.pipe q ++ rest.take n) })
  | sigpipe {rest : Data} {next : Option σ} {q : ℕ} (pc : ch.pc = .writing rest next)
      (target : ch.fds.entry 1 = some (.writeEnd q)) (reader : s.readerOpen q = false) :
      ChildStep c s ch none (s.setChild ch.exit)
  | writeBad {rest : Data} {next : Option σ} (pc : ch.pc = .writing rest next)
      (target : ch.fds.entry 1 = none ∨ ∃ q, ch.fds.entry 1 = some (.readEnd q)) :
      ChildStep c s ch none (s.setChild (ch.proceed next))

/-- One step of the interpreter or of the child. -/
inductive Step (c : Setting σ) (s : State σ) : Option Event → State σ → Prop
  | interpreter {s' : State σ} (move : Move c s s') : Step c s none s'
  | child {ch : Child σ} {e : Option Event} {s' : State σ} (child : s.child = some ch)
      (step : ChildStep c s ch e s') : Step c s e s'

/-- The array keeps its length. -/
theorem fill_length (delimiters : List Char) (places : ℕ) (t : List Char) :
    (fill delimiters places t).length = places := by
  induction places generalizing t with
  | zero => rfl
  | succ places ih =>
    unfold fill
    split
    · exact List.length_replicate
    · rw [List.length_cons, ih]

/-- There are `MAX_CMDS` commands at most. -/
theorem command_of_le {i : ℕ} (h : MAX_CMDS ≤ i) : c.command i = none := by
  unfold Setting.command
  rw [List.getElem?_eq_none (by rw [fill_length]; exact h)]
  rfl

/-- A command is the last when there is none behind it. -/
theorem isLast_iff (c : Setting σ) (i : ℕ) : c.isLast i = true ↔ c.command (i + 1) = none := by
  unfold Setting.isLast
  rw [Bool.or_eq_true, decide_eq_true_iff, decide_eq_true_iff]
  constructor
  · intro h
    cases h with
    | inl heq =>
      apply command_of_le
      rw [heq]
      decide
    | inr hnone => exact hnone
  · exact .inr

/-- What the interpreter does is one of the moves. -/
theorem Move.of_execLine (h : execLine c s = some s') : Move c s s' := by
  unfold execLine at h
  split at h
  · rename_i hpc
    cases h
    exact .firstPipe hpc
  · rename_i i hpc
    cases h
    split
    · rename_i hmore
      exact .enter hpc hmore.2
    · rename_i hmore
      apply Move.leave hpc
      by_cases hi : i < MAX_CMDS
      · by_contra hne
        exact hmore ⟨hi, hne⟩
      · exact command_of_le (by omega)
  · rename_i hpc
    cases h
    exact .pipe hpc
  · rename_i hpc
    cases h
    exact .fork hpc
  · rename_i hpc
    cases h
    exact .closeWrite hpc
  · rename_i hpc
    cases h
    exact .dupRead hpc
  · rename_i hpc
    split at h
    · rename_i hnone
      cases h
      exact .waitNobody hpc hnone
    · rename_i ch hsome
      split at h
      · rename_i hexited
        cases h
        exact .waited hpc hsome hexited
      · cases h
  · rename_i hpc
    cases h
    exact .closeIn hpc
  · rename_i hpc
    cases h
    exact .next hpc
  · rename_i hpc
    cases h
    exact .closeLast hpc
  · cases h

/-- A write of a command is one of its steps. -/
theorem ChildStep.of_writeTo {rest : Data} {next : Option σ} {n : ℕ}
    (hpc : ch.pc = .writing rest next) (h : s.writeTo c ch rest next n = some (e, s')) :
    ChildStep c s ch e s' := by
  unfold State.writeTo at h
  dsimp only at h
  split at h
  · rename_i d htarget
    split at h
    · rename_i hn
      cases h
      rw [htarget]
      exact .writeInherited hpc htarget hn.1 hn.2
    · cases h
  · rename_i q htarget
    split at h
    · rename_i hreader
      split at h
      · rename_i hn
        cases h
        rw [htarget]
        exact .writePipe hpc htarget hreader hn.1 hn.2.1 hn.2.2
      · cases h
    · rename_i hreader
      cases h
      exact .sigpipe hpc htarget (by simpa using hreader)
  · rename_i q htarget
    cases h
    exact .writeBad hpc (.inr ⟨q, htarget⟩)
  · rename_i htarget
    cases h
    exact .writeBad hpc (.inl htarget)

/-- What a command does is one of its steps. -/
theorem ChildStep.of_execCmd {n : ℕ} (h : execCmd c s ch n = some (e, s')) :
    ChildStep c s ch e s' := by
  unfold execCmd at h
  split at h
  · rename_i hpc
    cases h
    exact .dupIn hpc
  · rename_i hpc
    cases h
    exact .dupOut hpc
  · rename_i hpc
    split at h
    · rename_i p hexec
      cases h
      exact .execed hpc hexec
    · rename_i hexec
      cases h
      exact .execFailed hpc hexec
  · rename_i p hpc
    split at h
    · rename_i size next hop
      simp only [Option.bind_eq_bind, Option.bind_eq_some_iff] at h
      obtain ⟨⟨data, s₁⟩, hread, heq⟩ := h
      cases heq
      unfold State.readFrom at hread
      split at hread
      · rename_i d hsource
        simp only [Option.bind_eq_bind, Option.bind_eq_some_iff] at hread
        obtain ⟨⟨data, rest⟩, hmoved, heq⟩ := hread
        cases heq
        rw [hsource]
        exact .readInherited hpc hop hsource hmoved
      · rename_i q hsource
        split at hread
        · cases hread
        · rename_i hready
          simp only [Option.bind_eq_bind, Option.bind_eq_some_iff] at hread
          obtain ⟨⟨data, rest⟩, hmoved, heq⟩ := hread
          cases heq
          rw [hsource]
          exact .readPipe hpc hop hsource hready hmoved
      · rename_i q hsource
        cases hread
        exact .readBad hpc hop (.inr ⟨q, hsource⟩)
      · rename_i hsource
        cases hread
        exact .readBad hpc hop (.inl hsource)
    · rename_i hop
      cases h
      exact .beginWrite hpc hop
    · rename_i hop
      cases h
      exact .finish hpc hop
  · rename_i rest next hpc
    split at h
    · rename_i hempty
      cases h
      rw [hempty] at hpc
      exact .written hpc
    · exact .of_writeTo hpc h
  · cases h

/-- What the program does is one of the steps. -/
theorem Step.of_system (h : (program c).system.step s e s') : Step c s e s' := by
  obtain ⟨choice, h⟩ := h
  cases choice with
  | interpreter =>
    simp only [program, Pipeline.next, Option.map_eq_some_iff] at h
    obtain ⟨s₁, hmove, heq⟩ := h
    cases heq
    exact .interpreter (.of_execLine hmove)
  | child n =>
    simp only [program, Pipeline.next, Option.bind_eq_some_iff] at h
    obtain ⟨ch, hchild, hstep⟩ := h
    exact .child hchild (.of_execCmd hstep)

end SystemyOperacyjne.Pipeline
