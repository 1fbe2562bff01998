import SystemyOperacyjne.Analysis.CommandSplitting

/-!
# The variables that commands receive

A batch file of directives and commands, as it is meant to be read: a directive binds a name to a
value or removes it, and a command receives what the directives before it have made of the
environment (`expected`). `main_environments` says that the interpreter reads it so.
-/

set_option autoImplicit false

namespace SystemyOperacyjne.BatchInterpreter

open Library

/-! ## Batch files -/

/-- The name of a variable, as a directive can have it. -/
structure Name where
  chars : Word
  ne_nil : chars ≠ []
  allowed : ∀ x ∈ chars, x ∉ [' ', '\t', '\r', '\n', '=', '\x00']

/-- The value of a variable, as a directive can have it; spaces may be anywhere in it. -/
structure Value where
  chars : Word
  ne_nil : chars ≠ []
  allowed : ∀ x ∈ chars, x ∉ ['\t', '\r', '\n', '\x00']

/-- A line with a command. -/
structure CommandLine where
  chars : List Char
  argv : List Word
  oneLine : '\n' ∉ chars
  isCommand : kind chars = .command argv

/-- A line of a batch file. -/
inductive BatchLine
  | set (name : Name) (value : Value)
  | unset (name : Name)
  | command (cmd : CommandLine)

/-- The line as it is written, without a line feed. -/
def BatchLine.chars : BatchLine → List Char
  | .set name value => '#' :: name.chars ++ ' ' :: value.chars
  | .unset name => '#' :: name.chars
  | .command cmd => cmd.chars

/-- A file of such lines; behind the last one a line feed stands if `closed`. -/
def batchFile (closed : Bool) : List BatchLine → List Char
  | [] => []
  | [line] => line.chars ++ if closed then ['\n'] else []
  | line :: lines => line.chars ++ '\n' :: batchFile closed lines

/-- What a line makes of the environment. -/
def BatchLine.effect (env : Env) : BatchLine → Env
  | .set name value => Function.update env name.chars (some value.chars)
  | .unset name => Function.update env name.chars none
  | .command _ => env

/-- The commands with the environments they are to receive. -/
def expected : Env → List BatchLine → List (List Word × Env)
  | _, [] => []
  | env, .command cmd :: lines => (cmd.argv, env) :: expected env lines
  | env, line :: lines => expected (line.effect env) lines

/-- The lines that process `p` reaches: all of them, unless the allocator ends it behind one. -/
def reached (calls : Process → ℕ → Calls) (p : Process) : List BatchLine → ℕ → List BatchLine
  | [], _ => []
  | line :: lines, n =>
    line :: if (calls p n).stopped.isSome then [] else reached calls p lines (n + 1)

/-- The command that is executed and the environment that it receives. -/
def Event.received : Event → Option (List Word × Env)
  | .attempt _ _ argv env => some (argv, env)
  | _ => none

/-! ## The lines of the file -/

/-- The lines up to the first line feed and behind it. -/
theorem getlines_append {w : List Char} (hw : '\n' ∉ w) (s : List Char) :
    getlines (w ++ '\n' :: s) = (w ++ ['\n']) :: getlines s := by
  induction w with
  | nil => simp [getlines]
  | cons c w ih =>
    rw [List.mem_cons, not_or] at hw
    have hrest := ih hw.2
    rw [List.cons_append, getlines, if_neg (Ne.symm hw.1), hrest]
    rfl

/-- A line without a line feed at its end. -/
theorem getlines_last {w : List Char} (hw : '\n' ∉ w) (hne : w ≠ []) : getlines w = [w] := by
  induction w with
  | nil => exact absurd rfl hne
  | cons c w ih =>
    rw [List.mem_cons, not_or] at hw
    rw [getlines, if_neg (Ne.symm hw.1)]
    cases w with
    | nil => rfl
    | cons d w => rw [ih hw.2 (by simp)]

/-- A line as it is written, with its line feed or without one. -/
def WrittenAs (line : BatchLine) (text : List Char) : Prop :=
  ∃ ending, (ending = [] ∨ ending = ['\n']) ∧ text = line.chars ++ ending

/-- What cannot be in a name. -/
theorem Name.not_mem (name : Name) {x : Char} (hx : x ∈ [' ', '\t', '\r', '\n', '=', '\x00']) :
    x ∉ name.chars := fun h => name.allowed x h hx

/-- What cannot be in a value. -/
theorem Value.not_mem (value : Value) {x : Char} (hx : x ∈ ['\t', '\r', '\n', '\x00']) :
    x ∉ value.chars := fun h => value.allowed x h hx

/-- A directive is one line. -/
theorem BatchLine.oneLine (line : BatchLine) : '\n' ∉ line.chars := by
  cases line with
  | set name value =>
    have hname := name.not_mem (x := '\n') (by decide)
    have hvalue := value.not_mem (x := '\n') (by decide)
    simp [BatchLine.chars, hname, hvalue]
  | unset name =>
    have hname := name.not_mem (x := '\n') (by decide)
    simp [BatchLine.chars, hname]
  | command cmd => exact cmd.oneLine

/-- It is not empty. -/
theorem BatchLine.chars_ne_nil (line : BatchLine) : line.chars ≠ [] := by
  cases line with
  | set name value => exact List.cons_ne_nil _ _
  | unset name => exact List.cons_ne_nil _ _
  | command cmd =>
    intro hnil
    have hkind := cmd.isCommand
    rw [show cmd.chars = [] from hnil] at hkind
    cases hkind

/-- `getline` gives the lines of the file. -/
theorem getlines_batchFile (closed : Bool) (lines : List BatchLine) :
    List.Forall₂ WrittenAs lines (getlines (batchFile closed lines)) := by
  induction lines with
  | nil => exact .nil
  | cons line lines ih =>
    cases lines with
    | nil =>
      cases closed with
      | true =>
        rw [batchFile, if_pos rfl, getlines_append line.oneLine]
        exact .cons ⟨_, .inr rfl, rfl⟩ .nil
      | false =>
        rw [batchFile, if_neg Bool.false_ne_true, List.append_nil,
          getlines_last line.oneLine line.chars_ne_nil]
        exact .cons ⟨[], .inl rfl, (List.append_nil _).symm⟩ .nil
    | cons next lines =>
      rw [batchFile, getlines_append line.oneLine]
      · exact .cons ⟨_, .inr rfl, rfl⟩ ih
      · simp

/-! ## Directives -/

variable {line : BatchLine} {text : List Char} {env : Env}

/-- A string without `NUL` is held in memory as it is. -/
theorem cString_self {s : List Char} (h : '\x00' ∉ s) : cString s = s := by
  rw [cString, List.takeWhile_eq_self_iff]
  intro x hx
  simpa using fun heq : x = '\x00' => h (heq ▸ hx)

/-- The value that `strtok` finds, `NULL` if there is none. -/
theorem strtok_ending (w : List Char) (hw : ∀ x ∈ w, ("\t\n\r".toList.contains x) = false)
    {ending : List Char} (h : ending = [] ∨ ending = ['\n']) :
    (strtok ("\t\n\r".toList.contains ·) (w ++ ending)).map Prod.fst =
      if w = [] then none else some w := by
  by_cases hne : w = []
  · subst hne
    rcases h with rfl | rfl <;> rfl
  · rw [if_neg hne]
    rcases h with rfl | rfl
    · rw [List.append_nil, strtok_self hne hw]
      rfl
    · rw [strtok_append hne hw rfl]
      rfl

/-- A name is one word. -/
theorem Name.not_blank (name : Name) :
    ∀ x ∈ name.chars, (" \t\n\r".toList.contains x) = false := by
  intro x hx
  have hallowed := name.allowed x hx
  simp at hallowed ⊢
  tauto

/-- A value is one word of what is behind the first. -/
theorem Value.not_delimiter (value : Value) :
    ∀ x ∈ value.chars, ("\t\n\r".toList.contains x) = false := by
  intro x hx
  have hallowed := value.allowed x hx
  simp at hallowed ⊢
  tauto

/-- `setenv` takes the name. -/
theorem Name.not_bad (name : Name) : badName name.chars = false := by
  have hequals := name.not_mem (x := '=') (by decide)
  simp [badName, name.ne_nil, hequals]

/-- **A directive with a value** binds the name to exactly the value. -/
theorem addVariable_set (name : Name) (value : Value) {ending : List Char}
    (h : ending = [] ∨ ending = ['\n']) (env : Env) :
    addVariable ((BatchLine.set name value).chars ++ ending) env =
      ((BatchLine.set name value).effect env, none) := by
  have hname : strtok (" \t\n\r".toList.contains ·)
      ((BatchLine.set name value).chars ++ ending).tail =
        some (name.chars, value.chars ++ ending) := by
    simp only [BatchLine.chars, List.cons_append, List.tail_cons, List.append_assoc]
    exact strtok_append name.ne_nil name.not_blank rfl _
  have hvalue := strtok_ending value.chars value.not_delimiter h
  rw [if_neg value.ne_nil, Option.map_eq_some_iff] at hvalue
  obtain ⟨⟨token, rest⟩, hvalue, rfl⟩ := hvalue
  rw [addVariable, hname]
  simp only [hvalue, name.not_bad]
  rfl

/-- **A directive without a value** removes the name. -/
theorem addVariable_unset (name : Name) {ending : List Char}
    (h : ending = [] ∨ ending = ['\n']) (env : Env) :
    addVariable ((BatchLine.unset name).chars ++ ending) env =
      ((BatchLine.unset name).effect env, none) := by
  have hname : strtok (" \t\n\r".toList.contains ·)
      ((BatchLine.unset name).chars ++ ending).tail = some (name.chars, []) := by
    simp only [BatchLine.chars, List.cons_append, List.tail_cons]
    rcases h with rfl | rfl
    · rw [List.append_nil]
      exact strtok_self name.ne_nil name.not_blank
    · exact strtok_append name.ne_nil name.not_blank rfl []
  have hvalue : strtok ("\t\n\r".toList.contains ·) [] = none := rfl
  rw [addVariable, hname]
  simp only [hvalue, name.not_bad]
  rfl

/-- The interpreter on a directive. -/
theorem interpret_addVariable (h : (cString text).head? = some '#') (v : Version)
    (calls : Process → ℕ → Calls) (lines : List (List Char)) (p : Process) (n : ℕ) (env : Env) :
    (interpret v calls (text :: lines) p n env).1 =
      .directive p n :: ((addVariable (cString text) env).2.map (.message p ·)).toList ++
        (behind v calls lines p n (addVariable (cString text) env).1).1 := by
  simp only [interpret, if_pos h, behind]

/-! ## Commands -/

/-- The line feed at the end of a line is behind the last word. -/
theorem words_behindFirst_lineFeed {s : List Char} (h : words blank s ≠ []) :
    words gap (behindFirst (s ++ ['\n'])) = words gap (behindFirst s) := by
  have hdrop : ¬ (s.dropWhile blank).isEmpty = true := by
    intro hempty
    rw [List.isEmpty_iff] at hempty
    rw [← words_dropWhile s, hempty] at h
    exact h rfl
  rw [behindFirst, behindFirst, List.dropWhile_append, if_neg hdrop, List.dropWhile_append]
  split
  · rename_i hempty
    rw [List.isEmpty_iff] at hempty
    rw [hempty]
    rfl
  · cases hrest : (s.dropWhile blank).dropWhile fun x => !blank x with
    | nil =>
      rename_i hempty
      exact absurd (List.isEmpty_iff.mpr hrest) hempty
    | cons c rest =>
      rw [List.cons_append, List.tail_cons, List.tail_cons, words_append_cons rest [] rfl]
      exact List.append_nil _

/-- The line feed at the end of a line makes no difference to what is executed. -/
theorem execCommand_lineFeed (s : List Char) : execCommand (s ++ ['\n']) = execCommand s := by
  have hblank : words blank (s ++ ['\n']) = words blank s := by
    rw [words_append_cons s [] rfl]
    exact List.append_nil _
  rw [execCommand_eq, execCommand_eq, hblank]
  by_cases hnone : words blank s = []
  · rw [hnone]
  · rw [words_behindFirst_lineFeed hnone]

/-- The line feed at the end of a line makes no difference to what the line is. -/
theorem kind_lineFeed (s : List Char) : kind (s ++ ['\n']) = kind s := by
  unfold kind
  have hstring : cString (s ++ ['\n']) = cString s ++ ['\n'] ∨
      cString (s ++ ['\n']) = cString s := by
    unfold cString
    rw [List.takeWhile_append]
    split
    · rename_i hlength
      rw [(List.takeWhile_prefix _).eq_of_length hlength]
      exact .inl rfl
    · exact .inr rfl
  rcases hstring with heq | heq
  · rw [heq, execCommand_lineFeed]
    cases cString s <;> rfl
  · rw [heq]

/-- A command is what its line says, with the line feed or without it. -/
theorem CommandLine.kind_written (cmd : CommandLine) {ending : List Char}
    (h : ending = [] ∨ ending = ['\n']) : kind (cmd.chars ++ ending) = .command cmd.argv := by
  rcases h with rfl | rfl
  · rw [List.append_nil, cmd.isCommand]
  · rw [kind_lineFeed, cmd.isCommand]

/-! ## Whole files -/

/-- The commands of the lines are replaced by what they execute. -/
def AllExecuted (calls : Process → ℕ → Calls) (lines : List BatchLine) : Prop :=
  ∀ i cmd, lines[i]? = some (.command cmd) → (calls original (i + 1)).exec ≠ none

/-- A directive is read as it is meant, and nothing is executed for it. -/
theorem received_directive {effect : Env} (hline : line.chars.head? = some '#')
    (hstring : '\x00' ∉ text) (hwritten : WrittenAs line text)
    (hadd : addVariable text env = (effect, none)) (v : Version) (calls : Process → ℕ → Calls)
    (lines : List (List Char)) (p : Process) (n : ℕ) :
    (interpret v calls (text :: lines) p n env).1.filterMap Event.received =
      (behind v calls lines p n effect).1.filterMap Event.received := by
  have hself := cString_self hstring
  have hhead : (cString text).head? = some '#' := by
    obtain ⟨ending, -, rfl⟩ := hwritten
    rw [hself, List.head?_append, hline]
    rfl
  rw [interpret_addVariable hhead, hself, hadd]
  rfl

/-- The report on a command that has ended is no command. -/
theorem received_afterWait (p : Process) (n : ℕ) (argv : List Word) (status : Status) :
    (afterWait p n argv status).filterMap Event.received = [] := by
  cases status <;> rfl

/-- A process that nothing stops reaches all lines. -/
theorem reached_eq_self {calls : Process → ℕ → Calls} {p : Process} {lines : List BatchLine}
    {n : ℕ} (h : ∀ i, (calls p i).stopped = none) : reached calls p lines n = lines := by
  induction lines generalizing n with
  | nil => rfl
  | cons line lines ih => simp [reached, h n, ih]

/-- **The lines from `n` on**: every command that is reached receives the environment that the
directives before it have made. The induction is on the lines. -/
theorem received_interpret {calls : Process → ℕ → Calls} {p : Process}
    {lines : List BatchLine} {texts : List (List Char)} {n : ℕ} {env : Env}
    (hwritten : List.Forall₂ WrittenAs lines texts)
    (hexec : ∀ i cmd, lines[i]? = some (.command cmd) → (calls p (n + i)).exec ≠ none) :
    (interpret .plain calls texts p n env).1.filterMap Event.received =
      expected env (reached calls p lines n) := by
  induction hwritten generalizing n env with
  | nil => rfl
  | @cons line text lines texts hline hlines ih =>
    have hrest : ∀ i cmd, lines[i]? = some (.command cmd) → (calls p (n + 1 + i)).exec ≠ none := by
      intro i cmd hi
      have := hexec (i + 1) cmd hi
      rwa [show n + (i + 1) = n + 1 + i by omega] at this
    -- what is received behind the line, if the process goes on
    have hbehind : ∀ effect, (behind .plain calls texts p n effect).1.filterMap Event.received =
        expected effect
          (if (calls p n).stopped.isSome then [] else reached calls p lines (n + 1)) := by
      intro effect
      cases hstop : (calls p n).stopped with
      | some signal =>
        rw [behind_stopped hstop]
        rfl
      | none =>
        rw [behind_goesOn hstop]
        exact ih hrest
    obtain ⟨ending, hending, htext⟩ := id hline
    have hnul : '\x00' ∉ ending := by
      rcases hending with rfl | rfl <;> decide
    cases line with
    | set name value =>
      have hstring : '\x00' ∉ text := by
        have hname := name.not_mem (x := '\x00') (by decide)
        have hvalue := value.not_mem (x := '\x00') (by decide)
        simp [htext, BatchLine.chars, hname, hvalue, hnul]
      rw [received_directive rfl hstring hline (htext ▸ addVariable_set name value hending env)]
      exact hbehind _
    | unset name =>
      have hstring : '\x00' ∉ text := by
        have hname := name.not_mem (x := '\x00') (by decide)
        simp [htext, BatchLine.chars, hname, hnul]
      rw [received_directive rfl hstring hline (htext ▸ addVariable_unset name hending env)]
      exact hbehind _
    | command cmd =>
      obtain ⟨status, hstatus⟩ := Option.ne_none_iff_exists'.mp (hexec 0 cmd rfl)
      have hchild : childResult .plain (calls p n) = .inl status := by
        rw [childResult, show (calls p n).exec = some status from hstatus]
      have hkind : kind text = .command cmd.argv := htext ▸ cmd.kind_written hending
      have hfirst : (Event.attempt p n cmd.argv env).received = some (cmd.argv, env) := rfl
      rw [interpret_replaced hkind hchild]
      simp only [List.cons_append]
      rw [List.filterMap_cons_some hfirst, List.filterMap_append, received_afterWait,
        List.nil_append, hbehind env]
      rfl

/-- **The variables that commands receive**. In every batch file of directives and commands that
are executed, every command that the interpreter reaches receives the initial environment,
changed by the directives before it in their order; if the allocator does not stop the
interpreter, these are all commands of the file.
SOURCE: cw03/zad1/main.c:13-28, cw03/zad1/main.c:78-114 -/
theorem main_environments (calls : Process → ℕ → Calls) (env : Env) (lines : List BatchLine)
    (closed : Bool) (h : AllExecuted calls lines) :
    (main .plain calls env (batchFile closed lines)).1.filterMap Event.received =
        expected env (reached calls original lines 1) ∧
      ((∀ i, (calls original i).stopped = none) → reached calls original lines 1 = lines) := by
  refine ⟨?_, reached_eq_self⟩
  apply received_interpret (getlines_batchFile closed lines)
  intro i cmd hi
  rw [Nat.add_comm]
  exact h i cmd hi

/-- A variable with spaces in its value is set, a command executed, and the variable removed. -/
def setAndUnset : List BatchLine :=
  [.set ⟨"a".toList, by decide, by simp⟩ ⟨" x y ".toList, by decide, by simp⟩,
    .command ⟨"ls -l".toList, ["ls".toList, "-l".toList], by decide, by decide⟩,
    .unset ⟨"a".toList, by decide, by simp⟩,
    .command ⟨"pwd".toList, ["pwd".toList], by decide, by decide⟩]

/-- The calls when every command ends with exit status 0. -/
def allSucceed : Process → ℕ → Calls :=
  fun _ _ => { limitCpu := true, limitMem := true, exec := some (.exited 0), stopped := none }

/-- In a file of two commands the first receives the variable and the second does not. -/
theorem main_environments_setAndUnset :
    batchFile true setAndUnset = "#a  x y \nls -l\n#a\npwd\n".toList ∧
    ∀ env, (main .plain allSucceed env (batchFile true setAndUnset)).1.filterMap Event.received =
        expected env (reached allSucceed original setAndUnset 1) ∧
      ((∀ i, (allSucceed original i).stopped = none) →
        reached allSucceed original setAndUnset 1 = setAndUnset) :=
  ⟨by decide, fun env => main_environments _ env setAndUnset true fun _ _ _ => by simp [allSucceed]⟩

end SystemyOperacyjne.BatchInterpreter
