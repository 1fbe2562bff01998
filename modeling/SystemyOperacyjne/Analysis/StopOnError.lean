import SystemyOperacyjne.Model.BatchInterpreter

/-!
# Whether the interpreter stops on an error

The interpreter is to execute the lines up to the first command that does not end with exit
status 0, to report that line, and to stop there. Its loop never looks at what became of a
command: a report is printed only for a command that a signal has killed, and the loop goes
on in every case. So it does what it is to do only where nothing goes wrong, the allocator included,
or where nothing is left to execute behind a command that was killed (`Obeys`).
-/

set_option autoImplicit false

namespace SystemyOperacyjne.BatchInterpreter

open Library

variable {v : Version} {status : ℕ → Status} {stopped : ℕ → Option ℕ} {lines : List (List Char)}
  {text : List Char} {p : Process} {n : ℕ} {env : Env}

/-- Every child is turned into its command, and the command at a line ends with its status; the
allocator ends the interpreter, which is alone, behind the lines with a signal. -/
def replacedBy (status : ℕ → Status) (stopped : ℕ → Option ℕ) : Process → ℕ → Calls :=
  fun _ i =>
    { limitCpu := true, limitMem := true, exec := some (status i), stopped := stopped i }

/-- The line that is executed. -/
def Event.executed : Event → Option ℕ
  | .directive _ i | .attempt _ i _ _ => some i
  | _ => none

/-- The line that is reported. -/
def Event.reported : Event → Option ℕ
  | .report _ i _ => some i
  | _ => none

/-- The lines executed, in order. -/
def executed (events : List Event) : List ℕ :=
  events.filterMap Event.executed

/-- The lines reported, in order. -/
def reports (events : List Event) : List ℕ :=
  events.filterMap Event.reported

/-- The lines to be executed: all up to the first command that does not end with exit status
0. A line without any word is nothing to execute. -/
def due (status : ℕ → Status) : List (List Char) → ℕ → List ℕ
  | [], _ => []
  | text :: lines, n =>
    match kind text with
    | .crash => due status lines (n + 1)
    | .directive => n :: due status lines (n + 1)
    | .tooMany | .command _ =>
      n :: if status n = .exited 0 then due status lines (n + 1) else []

/-- The first command that does not end with exit status 0. -/
def firstError (status : ℕ → Status) : List (List Char) → ℕ → Option ℕ
  | [], _ => none
  | text :: lines, n =>
    match kind text with
    | .crash | .directive => firstError status lines (n + 1)
    | .tooMany | .command _ =>
      if status n = .exited 0 then firstError status lines (n + 1) else some n

/-- What the interpreter is to do with the lines from number `n` on. -/
structure StopsOnError (status : ℕ → Status) (lines : List (List Char)) (n : ℕ)
    (run : List Event × Status) : Prop where
  executed : executed run.1 = due status lines n
  reported : reports run.1 = (firstError status lines n).toList
  completes : firstError status lines n = none → run.2 = .exited 0

/-- **Nothing is left to execute**: to the end of the file, to a line without any word, or to a
line behind which the interpreter is stopped, there are only lines with too many words. -/
def Silent (stopped : ℕ → Option ℕ) : List (List Char) → ℕ → Prop
  | [], _ => True
  | text :: lines, n =>
    kind text = .crash ∨
      (kind text = .tooMany ∧ (stopped n = none → Silent stopped lines (n + 1)))

/-- **When the interpreter does it**: variables and commands that end with exit status 0, behind
which it is not stopped, to the end of the file or to a command that is killed and has nothing to
execute behind it. -/
inductive Obeys (status : ℕ → Status) (stopped : ℕ → Option ℕ) : List (List Char) → ℕ → Prop
  | nil (n : ℕ) : Obeys status stopped [] n
  | directive {text : List Char} {lines : List (List Char)} {n : ℕ}
      (hkind : kind text = .directive) (hgoes : stopped n = none)
      (rest : Obeys status stopped lines (n + 1)) : Obeys status stopped (text :: lines) n
  | success {text : List Char} {lines : List (List Char)} {n : ℕ} {argv : List Word}
      (hkind : kind text = .command argv) (good : status n = .exited 0) (hgoes : stopped n = none)
      (rest : Obeys status stopped lines (n + 1)) : Obeys status stopped (text :: lines) n
  | killed {text : List Char} {lines : List (List Char)} {n : ℕ} {argv : List Word} {signal : ℕ}
      (hkind : kind text = .command argv) (dead : status n = .killed signal)
      (rest : stopped n = none → Silent stopped lines (n + 1)) :
      Obeys status stopped (text :: lines) n

/-! ## What a run executes and reports -/

/-- The lines executed in two parts of a run. -/
@[simp] theorem executed_append (l m : List Event) : executed (l ++ m) = executed l ++ executed m :=
  List.filterMap_append

/-- A variable line is executed. -/
@[simp] theorem executed_directive (l : List Event) :
    executed (.directive p n :: l) = n :: executed l := rfl

/-- A command line that is attempted is executed. -/
@[simp] theorem executed_attempt (argv : List Word) (l : List Event) :
    executed (.attempt p n argv env :: l) = n :: executed l := rfl

/-- A text executes nothing. -/
@[simp] theorem executed_message (printed : String) (l : List Event) :
    executed (.message p printed :: l) = executed l := rfl

/-- What a variable line prints executes nothing. -/
@[simp] theorem executed_printed (printed : Option String) :
    executed (Option.map (Event.message p) printed).toList = [] := by
  cases printed <;> rfl

/-- What is printed when a child has ended executes nothing. -/
@[simp] theorem executed_afterWait (argv : List Word) (st : Status) :
    executed (afterWait p n argv st) = [] := by
  cases st <;> rfl

/-- The lines reported in two parts of a run. -/
@[simp] theorem reports_append (l m : List Event) : reports (l ++ m) = reports l ++ reports m :=
  List.filterMap_append

/-- A variable line is not reported. -/
@[simp] theorem reports_directive (l : List Event) :
    reports (.directive p n :: l) = reports l := rfl

/-- An attempt is no report. -/
@[simp] theorem reports_attempt (argv : List Word) (l : List Event) :
    reports (.attempt p n argv env :: l) = reports l := rfl

/-- A text that names no line is no report. -/
@[simp] theorem reports_message (printed : String) (l : List Event) :
    reports (.message p printed :: l) = reports l := rfl

/-- What a variable line prints is no report. -/
@[simp] theorem reports_printed (printed : Option String) :
    reports (Option.map (Event.message p) printed).toList = [] := by
  cases printed <;> rfl

/-- Every child is turned into its command. -/
theorem childResult_replacedBy (v : Version) (status : ℕ → Status) (stopped : ℕ → Option ℕ)
    (p : Process) (n : ℕ) : childResult v (replacedBy status stopped p n) = .inl (status n) := by
  cases v <;> rfl

/-- **What is executed and reported**, line by line. -/
theorem run_cons (v : Version) (status : ℕ → Status) (stopped : ℕ → Option ℕ) (text : List Char)
    (lines : List (List Char)) (p : Process) (n : ℕ) (env : Env) :
    (kind text = .crash ∧
      interpret v (replacedBy status stopped) (text :: lines) p n env = ([], .killed SIGSEGV)) ∨
    ∃ env' pre, executed pre = (if kind text = .tooMany then [] else [n]) ∧
      reports pre = (match kind text, status n with
        | .command _, .killed _ => [n]
        | _, _ => []) ∧ kind text ≠ .crash ∧
      interpret v (replacedBy status stopped) (text :: lines) p n env =
        (pre ++ (behind v (replacedBy status stopped) lines p n env').1,
          (behind v (replacedBy status stopped) lines p n env').2) := by
  cases hkind : kind text with
  | crash => exact .inl ⟨rfl, interpret_crash hkind⟩
  | directive =>
    obtain ⟨env', printed, heq⟩ := interpret_directive v (replacedBy status stopped) lines p n env
      hkind
    refine .inr ⟨env', _, ?_, ?_, by simp, heq⟩
    · simp
    · simp
  | tooMany =>
    refine .inr ⟨env, [.message p "Too many arguments\n"], rfl, rfl, by simp, ?_⟩
    rw [interpret_tooMany hkind]
    rfl
  | command argv =>
    refine .inr ⟨env, .attempt p n argv env :: afterWait p n argv (status n), ?_, ?_, by simp, ?_⟩
    · simp
    · rw [reports_attempt]
      cases status n <;> rfl
    · exact interpret_replaced hkind (childResult_replacedBy v status stopped p n)

/-- **Behind a line** the interpreter is stopped, or it goes on with the lines that are left. -/
theorem behind_replacedBy (v : Version) (status : ℕ → Status) (stopped : ℕ → Option ℕ)
    (lines : List (List Char)) (p : Process) (n : ℕ) (env : Env) :
    (∃ signal, stopped n = some signal ∧
      behind v (replacedBy status stopped) lines p n env = ([], .killed signal)) ∨
    (stopped n = none ∧ behind v (replacedBy status stopped) lines p n env =
      interpret v (replacedBy status stopped) lines p (n + 1) env) := by
  cases hstop : stopped n with
  | some signal => exact .inl ⟨signal, rfl, behind_stopped hstop⟩
  | none => exact .inr ⟨rfl, behind_goesOn hstop⟩

/-- The numbers of what is executed and reported come from the lines that are left. -/
theorem le_of_mem_run {i : ℕ}
    (h : i ∈ executed (interpret v (replacedBy status stopped) lines p n env).1 ∨
      i ∈ reports (interpret v (replacedBy status stopped) lines p n env).1) : n ≤ i := by
  induction lines generalizing n env with
  | nil => simp [interpret, executed, reports] at h
  | cons text lines ih =>
    rcases run_cons v status stopped text lines p n env with
      ⟨-, hrun⟩ | ⟨env', pre, hexec, hrep, -, hrun⟩
    · rw [hrun] at h
      simp [executed, reports] at h
    · have hexec' : i ∈ executed pre → i = n := by
        rw [hexec]
        split <;> simp
      have hrep' : i ∈ reports pre → i = n := by
        rw [hrep]
        split <;> simp
      rw [hrun, executed_append, reports_append, List.mem_append, List.mem_append] at h
      rcases behind_replacedBy v status stopped lines p n env' with
        ⟨signal, -, hbehind⟩ | ⟨-, hbehind⟩
      · rw [hbehind] at h
        rcases h with (h | h) | (h | h)
        · exact Nat.le_of_eq (hexec' h).symm
        · cases h
        · exact Nat.le_of_eq (hrep' h).symm
        · cases h
      · rw [hbehind] at h
        rcases h with (h | h) | (h | h)
        · exact Nat.le_of_eq (hexec' h).symm
        · exact Nat.le_of_succ_le (ih (.inl h))
        · exact Nat.le_of_eq (hrep' h).symm
        · exact Nat.le_of_succ_le (ih (.inr h))

/-- The numbers of what is executed and reported behind a line are greater than the line's. -/
theorem lt_of_mem_behind {i : ℕ}
    (h : i ∈ executed (behind v (replacedBy status stopped) lines p n env).1 ∨
      i ∈ reports (behind v (replacedBy status stopped) lines p n env).1) : n < i := by
  rcases behind_replacedBy v status stopped lines p n env with ⟨signal, -, hbehind⟩ | ⟨-, hbehind⟩
  · rw [hbehind] at h
    simp [executed, reports] at h
  · rw [hbehind] at h
    exact le_of_mem_run h

/-- **Nothing is executed** of lines that are silent, and of no others. -/
theorem executed_eq_nil_iff :
    executed (interpret v (replacedBy status stopped) lines p n env).1 = [] ↔
      Silent stopped lines n := by
  induction lines generalizing n env with
  | nil => simp [interpret, executed, Silent]
  | cons text lines ih =>
    rw [Silent]
    rcases run_cons v status stopped text lines p n env with
      ⟨hkind, hrun⟩ | ⟨env', pre, hexec, -, hkind, hrun⟩
    · rw [hrun]
      simp [executed, hkind]
    · rw [hrun, executed_append, hexec]
      by_cases hmany : kind text = .tooMany
      · rcases behind_replacedBy v status stopped lines p n env' with
          ⟨signal, hstop, hbehind⟩ | ⟨hstop, hbehind⟩
        · simp [hmany, hbehind, hstop, executed]
        · simp [hmany, hbehind, hstop, ih]
      · simp [hmany, hkind]

/-- Nothing is reported of lines that are silent. -/
theorem reports_of_silent (h : Silent stopped lines n) :
    reports (interpret v (replacedBy status stopped) lines p n env).1 = [] := by
  induction lines generalizing n env with
  | nil => rfl
  | cons text lines ih =>
    rw [Silent] at h
    rcases run_cons v status stopped text lines p n env with
      ⟨-, hrun⟩ | ⟨env', pre, -, hrep, hkind, hrun⟩
    · rw [hrun]
      rfl
    · obtain ⟨hmany, hrest⟩ := h.resolve_left hkind
      rw [hmany] at hrep
      rw [hrun, reports_append, hrep]
      rcases behind_replacedBy v status stopped lines p n env' with
        ⟨signal, -, hbehind⟩ | ⟨hstop, hbehind⟩
      · rw [hbehind]
        rfl
      · rw [hbehind, ih (hrest hstop)]
        rfl

/-- What `Obeys` asks of a first line. -/
theorem obeys_cons : Obeys status stopped (text :: lines) n ↔
    match kind text, status n with
    | .directive, _ | .command _, .exited 0 =>
      stopped n = none ∧ Obeys status stopped lines (n + 1)
    | .command _, .killed _ => stopped n = none → Silent stopped lines (n + 1)
    | .crash, _ | .tooMany, _ | .command _, .exited (_ + 1) => False := by
  constructor
  · intro h
    cases h with
    | directive hkind hgoes rest => rw [hkind]; exact ⟨hgoes, rest⟩
    | success hkind good hgoes rest => rw [hkind, good]; exact ⟨hgoes, rest⟩
    | killed hkind dead rest => rw [hkind, dead]; exact rest
  · intro h
    split at h
    · rename_i hkind
      exact .directive hkind h.1 h.2
    · rename_i hkind hst
      exact .success hkind hst h.1 h.2
    · rename_i hkind hst
      exact .killed hkind hst h
    · exact h.elim
    · exact h.elim
    · exact h.elim

/-! ## One line of what it is to do -/

/-- A process that a signal ends has neither finished nor reported anything. -/
theorem not_stopsOnError_killed {signal : ℕ} :
    ¬ StopsOnError status lines n ([], .killed signal) := by
  intro h
  cases herr : firstError status lines n with
  | none => cases h.completes herr
  | some m =>
    have hreported := h.reported
    rw [herr] at hreported
    cases hreported

section Lines

variable {pre : List Event} {run : List Event × Status}

/-- A line that is executed, and after which the interpreter is to go on. -/
theorem stopsOnError_goOn (hexec : executed pre = [n]) (hrep : reports pre = [])
    (hdue : due status (text :: lines) n = n :: due status lines (n + 1))
    (herr : firstError status (text :: lines) n = firstError status lines (n + 1)) :
    StopsOnError status (text :: lines) n (pre ++ run.1, run.2) ↔
      StopsOnError status lines (n + 1) run := by
  constructor
  · intro h
    constructor
    · have hexecuted := h.executed
      rw [executed_append, hexec, hdue] at hexecuted
      exact List.tail_eq_of_cons_eq hexecuted
    · have hreported := h.reported
      rwa [reports_append, hrep, List.nil_append, herr] at hreported
    · intro hnone
      exact h.completes (by rw [herr]; exact hnone)
  · intro h
    constructor
    · rw [executed_append, hexec, hdue, h.executed]
      rfl
    · rw [reports_append, hrep, herr, h.reported]
      rfl
    · intro hnone
      exact h.completes (by rw [← herr]; exact hnone)

/-- A line with too many words is due, but it is not executed, neither here nor later. -/
theorem not_stopsOnError_tooMany (hkind : kind text = .tooMany) (hexec : executed pre = []) :
    ¬ StopsOnError status (text :: lines) n
      (pre ++ (behind v (replacedBy status stopped) lines p n env).1,
        (behind v (replacedBy status stopped) lines p n env).2) := by
  intro h
  have hexecuted := h.executed
  have hmem : n ∈ executed (behind v (replacedBy status stopped) lines p n env).1 := by
    rw [executed_append, hexec, List.nil_append] at hexecuted
    rw [hexecuted]
    simp [due, hkind]
  exact Nat.lt_irrefl n (lt_of_mem_behind (.inl hmem))

/-- An error that is not a signal is not reported, neither here nor later. -/
theorem not_stopsOnError_failed (hrep : reports pre = [])
    (herr : firstError status (text :: lines) n = some n) :
    ¬ StopsOnError status (text :: lines) n
      (pre ++ (behind v (replacedBy status stopped) lines p n env).1,
        (behind v (replacedBy status stopped) lines p n env).2) := by
  intro h
  have hreported := h.reported
  rw [reports_append, hrep, List.nil_append, herr] at hreported
  have hmem : n ∈ reports (behind v (replacedBy status stopped) lines p n env).1 := by
    rw [hreported]
    simp
  exact Nat.lt_irrefl n (lt_of_mem_behind (.inr hmem))

/-- After a command that is killed, and reported, nothing more may be executed. -/
theorem stopsOnError_killed (hexec : executed pre = [n]) (hrep : reports pre = [n])
    (hdue : due status (text :: lines) n = [n])
    (herr : firstError status (text :: lines) n = some n) :
    StopsOnError status (text :: lines) n
        (pre ++ (behind v (replacedBy status stopped) lines p n env).1,
          (behind v (replacedBy status stopped) lines p n env).2) ↔
      (stopped n = none → Silent stopped lines (n + 1)) := by
  have hcases := behind_replacedBy v status stopped lines p n env
  constructor
  · intro h hstop
    have hexecuted := h.executed
    rw [executed_append, hexec, hdue] at hexecuted
    rcases hcases with ⟨signal, hstopped, -⟩ | ⟨-, hbehind⟩
    · rw [hstop] at hstopped
      cases hstopped
    · rw [hbehind] at hexecuted
      exact executed_eq_nil_iff.mp (List.tail_eq_of_cons_eq hexecuted)
  · intro h
    have hnothing : executed (behind v (replacedBy status stopped) lines p n env).1 = [] ∧
        reports (behind v (replacedBy status stopped) lines p n env).1 = [] := by
      rcases hcases with ⟨signal, -, hbehind⟩ | ⟨hstop, hbehind⟩
      · rw [hbehind]
        exact ⟨rfl, rfl⟩
      · rw [hbehind]
        exact ⟨executed_eq_nil_iff.mpr (h hstop), reports_of_silent (h hstop)⟩
    constructor
    · rw [executed_append, hexec, hdue, hnothing.1]
      rfl
    · rw [reports_append, hrep, herr, hnothing.2]
      rfl
    · intro hnone
      rw [herr] at hnone
      cases hnone

end Lines

/-- **The loop does what it is to do exactly where `Obeys` says so.** The induction is on the
lines, with one case a kind of line and of status. -/
theorem stopsOnError_lines :
    StopsOnError status lines n (interpret v (replacedBy status stopped) lines p n env) ↔
      Obeys status stopped lines n := by
  induction lines generalizing n env with
  | nil =>
    constructor
    · intro _
      exact .nil n
    · intro _
      constructor
      · rfl
      · rfl
      · exact fun _ => rfl
  | cons text lines ih =>
    -- behind a line that is executed, and after which the interpreter is to go on
    have hgoOn : ∀ env', StopsOnError status lines (n + 1)
        (behind v (replacedBy status stopped) lines p n env') ↔
          stopped n = none ∧ Obeys status stopped lines (n + 1) := by
      intro env'
      rcases behind_replacedBy v status stopped lines p n env' with
        ⟨signal, hstop, hbehind⟩ | ⟨hstop, hbehind⟩
      · rw [hbehind]
        simpa [hstop] using not_stopsOnError_killed
      · rw [hbehind, ih, and_iff_right hstop]
    rw [obeys_cons]
    rcases run_cons v status stopped text lines p n env with
      ⟨hkind, hrun⟩ | ⟨env', pre, hexec, hrep, hne, hrun⟩
    · rw [hrun, hkind]
      simpa using not_stopsOnError_killed
    · rw [hrun]
      cases hkind : kind text with
      | crash => exact absurd hkind hne
      | directive =>
        rw [hkind] at hexec hrep
        rw [stopsOnError_goOn hexec hrep (by simp [due, hkind]) (by simp [firstError, hkind])]
        exact hgoOn env'
      | tooMany =>
        rw [hkind] at hexec
        exact iff_of_false (not_stopsOnError_tooMany hkind hexec) id
      | command argv =>
        rw [hkind] at hexec hrep
        cases hst : status n with
        | exited code =>
          rw [hst] at hrep
          cases code with
          | zero =>
            rw [stopsOnError_goOn hexec hrep (by simp [due, hkind, hst])
              (by simp [firstError, hkind, hst])]
            exact hgoOn env'
          | succ code =>
            exact iff_of_false
              (not_stopsOnError_failed hrep (by simp [firstError, hkind, hst])) id
        | killed signal =>
          rw [hst] at hrep
          exact stopsOnError_killed hexec hrep (by simp [due, hkind, hst])
            (by simp [firstError, hkind, hst])

/-- **When the interpreter stops on an error**: on any file, with any statuses, and wherever the
allocator ends it, it executes the lines up to the first command that does not end with exit
status 0, reports that line and executes no later one, exactly if the file obeys `Obeys`.
SOURCE: cw03/zad1/main.c:57-114, cw03/zad2/main.c:95-126 -/
theorem stopsOnError_iff (v : Version) (status : ℕ → Status) (stopped : ℕ → Option ℕ) (env : Env)
    (file : List Char) :
    StopsOnError status (getlines file) 1 (main v (replacedBy status stopped) env file) ↔
      Obeys status stopped (getlines file) 1 :=
  stopsOnError_lines

/-- **No stop**: the first of two commands ends with exit status 1, is not reported, and the
second one is executed, in both programs, although nothing else ends them. -/
theorem goes_on_after_error :
    ¬ StopsOnError (fun i => .exited (if i = 1 then 1 else 0)) (getlines "false\nls\n".toList) 1
        (main .plain (replacedBy (fun i => .exited (if i = 1 then 1 else 0)) fun _ => none)
          (fun _ => none) "false\nls\n".toList) ∧
    ¬ StopsOnError (fun i => .exited (if i = 1 then 1 else 0)) (getlines "false\nls\n".toList) 1
        (main .limited (replacedBy (fun i => .exited (if i = 1 then 1 else 0)) fun _ => none)
          (fun _ => none) "false\nls\n".toList) := by
  constructor
  · intro h
    exact absurd h.executed (by decide +kernel)
  · intro h
    exact absurd h.executed (by decide +kernel)

end SystemyOperacyjne.BatchInterpreter
