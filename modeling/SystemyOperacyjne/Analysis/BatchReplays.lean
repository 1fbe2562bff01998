import Mathlib.Data.List.Nodup
import SystemyOperacyjne.Model.BatchInterpreter

/-!
# Which lines are executed, and by whom

A child that could not be turned into its command reads on in its copy of the file, so the
commands after a line that fails are executed once more, by a child of the child. As long as
no such child gets to a command, the original interpreter executes every command of the file that
it reaches, once (`attempts_eq`).
-/

set_option autoImplicit false

namespace SystemyOperacyjne.BatchInterpreter

open Library

variable {v : Version} {calls : Process → ℕ → Calls} {lines : List (List Char)}
  {p : Process} {n : ℕ} {env : Env}

/-- The process that forks for a line, and the line. -/
def Event.attempted : Event → Option (Process × ℕ)
  | .attempt p lineNumber _ _ => some (p, lineNumber)
  | _ => none

/-- The attempts to execute a line, in order. -/
def attempts (events : List Event) : List (Process × ℕ) :=
  events.filterMap Event.attempted

/-- Every line is attempted once at most, by a child that the original interpreter forked. -/
structure AttemptedOnce (events : List Event) : Prop where
  once : ∀ i, (attempts events).countP (fun a => a.2 = i) ≤ 1
  byOriginal : ∀ a ∈ attempts events, a.1 = original

/-- The numbers of the lines that are commands, as far as a process gets: one without any word
ends it, and the allocator may end it behind any line. -/
def commandLines (calls : Process → ℕ → Calls) (p : Process) : List (List Char) → ℕ → List ℕ
  | [], _ => []
  | text :: lines, n =>
    let later := if (calls p n).stopped.isSome then [] else commandLines calls p lines (n + 1)
    match kind text with
    | .crash => []
    | .command _ => n :: later
    | .directive | .tooMany => later

/-- The command lines that a process gets to behind line `n`, when `lines` are left. -/
def commandLinesBehind (calls : Process → ℕ → Calls) (p : Process) (lines : List (List Char))
    (n : ℕ) : List ℕ :=
  if (calls p n).stopped.isSome then [] else commandLines calls p lines (n + 1)

/-- The child forked for line `i` by process `p` is not turned into the command. -/
def Fails (v : Version) (calls : Process → ℕ → Calls) (p : Process) (i : ℕ) : Prop :=
  (childResult v (calls p i)).isRight = true

/-- **When nothing is executed twice**: the child for a line of `lines`, which begin with line
`n`, gets to no command behind it if it is not turned into its own. -/
def NoReplay (v : Version) (calls : Process → ℕ → Calls) (p : Process)
    (lines : List (List Char)) (n : ℕ) : Prop :=
  ∀ i ∈ commandLines calls p lines n, Fails v calls p i →
    commandLinesBehind calls (p ++ [i]) (lines.drop (i + 1 - n)) i = []

/-- The command lines from a line on. -/
theorem commandLines_cons {text : List Char} :
    commandLines calls p (text :: lines) n =
      match kind text with
      | .crash => []
      | .command _ => n :: commandLinesBehind calls p lines n
      | .directive | .tooMany => commandLinesBehind calls p lines n := rfl

/-- The line numbers grow. -/
theorem le_of_mem_commandLines {i : ℕ} (h : i ∈ commandLines calls p lines n) : n ≤ i := by
  induction lines generalizing n with
  | nil => cases h
  | cons text lines ih =>
    have hbehind : i ∈ commandLinesBehind calls p lines n → n ≤ i := by
      intro hmem
      unfold commandLinesBehind at hmem
      split at hmem
      · cases hmem
      · exact Nat.le_of_succ_le (ih hmem)
    rw [commandLines_cons] at h
    split at h
    · cases h
    · rcases List.mem_cons.mp h with rfl | h
      · exact Nat.le_refl _
      · exact hbehind h
    · exact hbehind h
    · exact hbehind h

/-- The lines behind a line have greater numbers. -/
theorem lt_of_mem_commandLinesBehind {i : ℕ} (h : i ∈ commandLinesBehind calls p lines n) :
    n < i := by
  unfold commandLinesBehind at h
  split at h
  · cases h
  · exact le_of_mem_commandLines h

/-- No line has two numbers. -/
theorem nodup_commandLines : (commandLines calls p lines n).Nodup := by
  induction lines generalizing n with
  | nil => exact .nil
  | cons text lines ih =>
    have hbehind : (commandLinesBehind calls p lines n).Nodup := by
      unfold commandLinesBehind
      split
      · exact .nil
      · exact ih
    rw [commandLines_cons]
    split
    · exact .nil
    · apply List.nodup_cons.mpr
      refine ⟨?_, hbehind⟩
      intro hmem
      exact Nat.lt_irrefl n (lt_of_mem_commandLinesBehind hmem)
    · exact hbehind
    · exact hbehind

/-- The lines behind line `i`, counted from one line earlier. -/
theorem drop_cons {text : List Char} {i : ℕ} (h : n < i) :
    (text :: lines).drop (i + 1 - n) = lines.drop (i + 1 - (n + 1)) := by
  have hpos : i + 1 - n = (i + 1 - (n + 1)) + 1 := by omega
  rw [hpos, List.drop_succ_cons]

/-- What is asked of a command and of the lines behind it. -/
theorem noReplay_behind {text : List Char} (h : NoReplay v calls p (text :: lines) n)
    (hstop : (calls p n).stopped = none) (hne : kind text ≠ .crash) :
    NoReplay v calls p lines (n + 1) := by
  intro i hi hfails
  have hbehind : i ∈ commandLinesBehind calls p lines n := by
    simpa [commandLinesBehind, hstop] using hi
  have hmem : i ∈ commandLines calls p (text :: lines) n := by
    rw [commandLines_cons]
    split
    · contradiction
    · exact List.mem_cons_of_mem n hbehind
    · exact hbehind
    · exact hbehind
  have hnone := h i hmem hfails
  rwa [drop_cons (lt_of_mem_commandLinesBehind hbehind)] at hnone

/-! ## The attempts of a run -/

/-- No events, no attempts. -/
@[simp] theorem attempts_nil : attempts [] = [] := rfl

/-- The attempts of two parts of a run. -/
@[simp] theorem attempts_append (l m : List Event) : attempts (l ++ m) = attempts l ++ attempts m :=
  List.filterMap_append

/-- An attempt counts. -/
@[simp] theorem attempts_attempt (argv : List Word) (l : List Event) :
    attempts (.attempt p n argv env :: l) = (p, n) :: attempts l := rfl

/-- A text is no attempt. -/
@[simp] theorem attempts_message (text : String) (l : List Event) :
    attempts (.message p text :: l) = attempts l := rfl

/-- A variable line is no attempt. -/
@[simp] theorem attempts_directive (l : List Event) :
    attempts (.directive p n :: l) = attempts l := rfl

/-- What a variable line prints is no attempt. -/
@[simp] theorem attempts_printed (text : Option String) :
    attempts (Option.map (Event.message p) text).toList = [] := by
  cases text <;> rfl

/-- What is printed when a child has ended is no attempt. -/
@[simp] theorem attempts_afterWait (argv : List Word) (status : Status) :
    attempts (afterWait p n argv status) = [] := by
  cases status <;> rfl

/-- **One line**: nothing is attempted for it, or the process attempts it, and the child that is
not turned into the command goes on behind it. -/
theorem attempts_cons (v : Version) (calls : Process → ℕ → Calls) (text : List Char)
    (lines : List (List Char)) (p : Process) (n : ℕ) (env : Env) :
    (kind text = .crash ∧ attempts (interpret v calls (text :: lines) p n env).1 = []) ∨
    ((kind text = .directive ∨ kind text = .tooMany) ∧ ∃ env',
      attempts (interpret v calls (text :: lines) p n env).1 =
        attempts (behind v calls lines p n env').1) ∨
    (∃ argv, kind text = .command argv) ∧
      attempts (interpret v calls (text :: lines) p n env).1 =
        (p, n) :: (if (childResult v (calls p n)).isRight then
          attempts (behind v calls lines (p ++ [n]) n env).1 else []) ++
          attempts (behind v calls lines p n env).1 := by
  cases hkind : kind text with
  | crash => exact .inl ⟨rfl, by rw [interpret_crash hkind]; rfl⟩
  | directive =>
    obtain ⟨env', printed, heq⟩ := interpret_directive v calls lines p n env hkind
    refine .inr (.inl ⟨.inl rfl, env', ?_⟩)
    rw [heq]
    simp
  | tooMany =>
    refine .inr (.inl ⟨.inr rfl, env, ?_⟩)
    rw [interpret_tooMany hkind, attempts_message]
  | command argv =>
    refine .inr (.inr ⟨⟨argv, rfl⟩, ?_⟩)
    cases hchild : childResult v (calls p n) with
    | inl status => rw [interpret_replaced hkind hchild]; simp
    | inr printed => rw [interpret_returned hkind hchild]; simp

/-- Behind a line a process is at its end, with no command before it, or it goes on. -/
theorem behind_cases (v : Version) (calls : Process → ℕ → Calls) (lines : List (List Char))
    (p : Process) (n : ℕ) (env : Env) :
    ((calls p n).stopped.isSome ∧ commandLinesBehind calls p lines n = [] ∧
      (behind v calls lines p n env).1 = []) ∨
    ((calls p n).stopped = none ∧
      commandLinesBehind calls p lines n = commandLines calls p lines (n + 1) ∧
      behind v calls lines p n env = interpret v calls lines p (n + 1) env) := by
  cases hstop : (calls p n).stopped with
  | some signal =>
    exact .inl ⟨rfl, by simp [commandLinesBehind, hstop], by rw [behind_stopped hstop]⟩
  | none => exact .inr ⟨rfl, by simp [commandLinesBehind, hstop], behind_goesOn hstop⟩

/-- Where no command follows, nothing is attempted. -/
theorem attempts_of_no_command (h : commandLines calls p lines n = []) :
    attempts (interpret v calls lines p n env).1 = [] := by
  induction lines generalizing n env with
  | nil => rfl
  | cons text lines ih =>
    rw [commandLines_cons] at h
    have hbehind : ∀ env', commandLinesBehind calls p lines n = [] →
        attempts (behind v calls lines p n env').1 = [] := by
      intro env' hnone
      rcases behind_cases v calls lines p n env' with ⟨-, -, hrun⟩ | ⟨-, hlines, hrun⟩
      · rw [hrun, attempts_nil]
      · rw [hrun, ih (hlines ▸ hnone)]
    rcases attempts_cons v calls text lines p n env with
      ⟨-, hrun⟩ | ⟨hkind | hkind, env', hrun⟩ | ⟨⟨argv, hkind⟩, -⟩
    · exact hrun
    · rw [hkind] at h
      rw [hrun, hbehind env' h]
    · rw [hkind] at h
      rw [hrun, hbehind env' h]
    · rw [hkind] at h
      cases h

/-- The first command that a process reaches is attempted by it. -/
theorem attempts_first {i : ℕ} {rest : List ℕ} (h : commandLines calls p lines n = i :: rest) :
    (p, i) ∈ attempts (interpret v calls lines p n env).1 := by
  induction lines generalizing n env with
  | nil => cases h
  | cons text lines ih =>
    rw [commandLines_cons] at h
    have hbehind : ∀ env', commandLinesBehind calls p lines n = i :: rest →
        (p, i) ∈ attempts (behind v calls lines p n env').1 := by
      intro env' hfirst
      rcases behind_cases v calls lines p n env' with ⟨-, hlines, -⟩ | ⟨-, hlines, hrun⟩
      · rw [hlines] at hfirst
        cases hfirst
      · rw [hrun]
        exact ih (hlines ▸ hfirst)
    rcases attempts_cons v calls text lines p n env with
      ⟨hkind, -⟩ | ⟨hkind | hkind, env', hrun⟩ | ⟨⟨argv, hkind⟩, hrun⟩
    · rw [hkind] at h
      cases h
    · rw [hkind] at h
      rw [hrun]
      exact hbehind env' h
    · rw [hkind] at h
      rw [hrun]
      exact hbehind env' h
    · rw [hkind] at h
      obtain ⟨rfl, -⟩ := List.cons.inj h
      rw [hrun, List.cons_append]
      exact List.mem_cons_self

/-- **The attempts of a process** whose children replay nothing: its commands, once each and in
order, and nobody else's. -/
theorem attempts_eq (h : NoReplay v calls p lines n) :
    attempts (interpret v calls lines p n env).1 =
      (commandLines calls p lines n).map fun i => (p, i) := by
  induction lines generalizing n env with
  | nil => rfl
  | cons text lines ih =>
    have hbehind : ∀ env', kind text ≠ .crash → attempts (behind v calls lines p n env').1 =
        (commandLinesBehind calls p lines n).map fun i => (p, i) := by
      intro env' hne
      rcases behind_cases v calls lines p n env' with ⟨-, hlines, hrun⟩ | ⟨hstop, hlines, hrun⟩
      · rw [hlines, hrun]
        rfl
      · rw [hlines, hrun]
        exact ih (noReplay_behind h hstop hne)
    rw [commandLines_cons]
    rcases attempts_cons v calls text lines p n env with
      ⟨hkind, hrun⟩ | ⟨hkind | hkind, env', hrun⟩ | ⟨⟨argv, hkind⟩, hrun⟩
    · rw [hrun, hkind]
      rfl
    · rw [hrun, hbehind env' (by simp [hkind]), hkind]
    · rw [hrun, hbehind env' (by simp [hkind]), hkind]
    · -- the child has nothing to execute
      have hchild : (if (childResult v (calls p n)).isRight then
          attempts (behind v calls lines (p ++ [n]) n env).1 else []) = [] := by
        split
        · rename_i hfails
          have hmem : n ∈ commandLines calls p (text :: lines) n := by
            rw [commandLines_cons, hkind]
            exact List.mem_cons_self
          have hnone := h n hmem hfails
          rw [Nat.add_sub_cancel_left, List.drop_one, List.tail_cons] at hnone
          rcases behind_cases v calls lines (p ++ [n]) n env with
            ⟨-, -, hrun⟩ | ⟨-, hlines, hrun⟩
          · rw [hrun, attempts_nil]
          · rw [hrun, attempts_of_no_command (hlines ▸ hnone)]
        · rfl
      rw [hrun, hchild, hbehind env (by simp [hkind]), hkind]
      rfl

/-- **A line that fails makes later ones run again**: the child forked for it attempts the
next command that it gets to. -/
theorem replayed {i j : ℕ} {rest : List ℕ} (hi : i ∈ commandLines calls p lines n)
    (hfails : Fails v calls p i)
    (hj : commandLinesBehind calls (p ++ [i]) (lines.drop (i + 1 - n)) i = j :: rest) :
    (p ++ [i], j) ∈ attempts (interpret v calls lines p n env).1 := by
  induction lines generalizing n env with
  | nil => cases hi
  | cons text lines ih =>
    have hbehind : ∀ env', i ∈ commandLinesBehind calls p lines n →
        (p ++ [i], j) ∈ attempts (behind v calls lines p n env').1 := by
      intro env' hmem
      rw [drop_cons (lt_of_mem_commandLinesBehind hmem)] at hj
      rcases behind_cases v calls lines p n env' with ⟨-, hlines, -⟩ | ⟨-, hlines, hrun⟩
      · rw [hlines] at hmem
        cases hmem
      · rw [hrun]
        exact ih (hlines ▸ hmem) hj
    rw [commandLines_cons] at hi
    rcases attempts_cons v calls text lines p n env with
      ⟨hkind, -⟩ | ⟨hkind | hkind, env', hrun⟩ | ⟨⟨argv, hkind⟩, hrun⟩
    · rw [hkind] at hi
      cases hi
    · rw [hkind] at hi
      rw [hrun]
      exact hbehind env' hi
    · rw [hkind] at hi
      rw [hrun]
      exact hbehind env' hi
    · rw [hkind] at hi
      rw [hrun]
      rcases List.mem_cons.mp hi with rfl | hi
      · rw [Nat.add_sub_cancel_left, List.drop_one, List.tail_cons] at hj
        have hchild : (p ++ [i], j) ∈ attempts (behind v calls lines (p ++ [i]) i env).1 := by
          rcases behind_cases v calls lines (p ++ [i]) i env with
            ⟨-, hlines, -⟩ | ⟨-, hlines, hrun⟩
          · rw [hlines] at hj
            cases hj
          · rw [hrun]
            exact attempts_first (hlines ▸ hj)
        rw [if_pos (show (childResult v (calls p i)).isRight = true from hfails)]
        simp [hchild]
      · simp [hbehind env hi]

/-- **Which files are executed once**: on any file and with any outcome of the calls, every
command is attempted once at most, and by a child of the original interpreter, exactly if no
child of the original that is not turned into its command gets to another command line.
SOURCE: cw03/zad1/main.c:57-114, cw03/zad2/main.c:61-163 -/
theorem attemptedOnce_iff (v : Version) (calls : Process → ℕ → Calls) (env : Env)
    (file : List Char) :
    AttemptedOnce (main v calls env file).1 ↔
      NoReplay v calls original (getlines file) 1 := by
  constructor
  · intro h i hi hfails
    cases hrest :
        commandLinesBehind calls (original ++ [i]) ((getlines file).drop (i + 1 - 1)) i with
    | nil => rfl
    | cons j rest =>
      have hmem : (original ++ [i], j) ∈ attempts (main v calls env file).1 :=
        replayed hi hfails hrest
      have horiginal := h.byOriginal _ hmem
      simp [original] at horiginal
  · intro h
    have heq : attempts (main v calls env file).1 =
        (commandLines calls original (getlines file) 1).map fun i => (original, i) :=
      attempts_eq h
    constructor
    · intro i
      rw [heq, List.countP_map]
      have hcount : (commandLines calls original (getlines file) 1).countP
          ((fun a : Process × ℕ => decide (a.2 = i)) ∘ fun j => (original, j)) =
          (commandLines calls original (getlines file) 1).count i := by
        unfold List.count
        apply List.countP_congr
        intro j _
        simp
      rw [hcount]
      exact List.nodup_iff_count_le_one.mp nodup_commandLines i
    · intro a ha
      rw [heq] at ha
      obtain ⟨i, -, rfl⟩ := List.mem_map.mp ha
      rfl

/-- The calls when a command named `lsls` does not exist and every other one ends well. -/
def noSuchFirst : Process → ℕ → Calls
  | _, 1 => { limitCpu := true, limitMem := true, exec := none, stopped := none }
  | _, _ => { limitCpu := true, limitMem := true, exec := some (.exited 0), stopped := none }

/-- What is attempted then, in both programs. -/
theorem attempts_noSuchFirst (v : Version) :
    attempts (main v noSuchFirst (fun _ => none) "lsls\nls\n".toList).1 =
      [(original, 1), ([1], 2), (original, 2)] := by
  cases v with
  | plain => decide +kernel
  | limited => decide +kernel

/-- **A command runs twice**: the first of two commands does not exist, and the second is
attempted by the child forked for the first and by the original interpreter, in both
programs. -/
theorem attempted_twice :
    ¬ AttemptedOnce (main .plain noSuchFirst (fun _ => none) "lsls\nls\n".toList).1 ∧
    ¬ AttemptedOnce (main .limited noSuchFirst (fun _ => none) "lsls\nls\n".toList).1 := by
  constructor
  · intro h
    have honce := h.once 2
    rw [attempts_noSuchFirst] at honce
    exact absurd honce (by decide)
  · intro h
    have honce := h.once 2
    rw [attempts_noSuchFirst] at honce
    exact absurd honce (by decide)

end SystemyOperacyjne.BatchInterpreter
