import SystemyOperacyjne.Library.Words
import SystemyOperacyjne.Model.BatchInterpreter

/-!
# How a command line is split

The first word of a line ends at a space, a tab, a line feed or a carriage return, the words
behind it at a space, a tab or a line feed only. `execCommand_eq` says what is executed, and
`kind_splitsAtBlanks_iff` where that is the list of words between all four separators.
-/

set_option autoImplicit false

namespace SystemyOperacyjne.BatchInterpreter

open Library

/-- What separates the first word from what follows. -/
def blank (x : Char) : Bool :=
  " \t\n\r".toList.contains x

/-- What separates the words behind the first. -/
def gap (x : Char) : Bool :=
  " \n\t".toList.contains x

/-- What is behind the first word of the line and the separator it ends at. -/
def behindFirst (line : List Char) : List Char :=
  ((line.dropWhile blank).dropWhile fun x => !blank x).tail

/-- The two sets of separators differ in the carriage return. -/
theorem blank_eq (x : Char) : blank x = (gap x || x = '\r') := by
  rw [Bool.eq_iff_iff]
  simp [blank, gap]
  tauto

/-- **The words behind the first**: all of them, if there are slots for them. -/
theorem readArgs_eq (slots : ℕ) (s : List Char) :
    readArgs slots s = if (words gap s).length ≤ slots then some (words gap s) else none := by
  induction slots generalizing s with
  | zero =>
    rw [readArgs]
    split
    · rename_i hnone
      rw [words_of_strtok_none (show strtok gap s = none from hnone)]
      rfl
    · rename_i word rest hsome
      rw [words_of_strtok (show strtok gap s = some (word, rest) from hsome), if_neg (by simp)]
  | succ slots ih =>
    rw [readArgs]
    split
    · rename_i hnone
      rw [words_of_strtok_none (show strtok gap s = none from hnone)]
      rfl
    · rename_i word rest hsome
      simp only
      rw [words_of_strtok (show strtok gap s = some (word, rest) from hsome), ih rest]
      simp only [List.length_cons, Nat.add_le_add_iff_right]
      split <;> rfl

/-- The words of the line, when it has any. -/
theorem words_blank_cons {line : List Char} (h : words blank line ≠ []) :
    ∃ first, words blank line = first :: words blank (behindFirst line) ∧
      strtok blank line = some (first, behindFirst line) := by
  cases hstrtok : strtok blank line with
  | none => exact absurd (words_of_strtok_none hstrtok) h
  | some p =>
    obtain ⟨first, rest⟩ := p
    have hrest : rest = behindFirst line := by
      unfold strtok at hstrtok
      split at hstrtok
      · cases hstrtok
      · rename_i c t hdrop
        cases hstrtok
        rw [behindFirst, hdrop]
    subst hrest
    exact ⟨first, words_of_strtok hstrtok, rfl⟩

/-- **What is executed for a line.** -/
theorem execCommand_eq (line : List Char) : execCommand line =
    match words blank line with
    | [] => .crash
    | first :: _ =>
      if (words gap (behindFirst line)).length ≤ maxArgs then
        .argv (first :: words gap (behindFirst line))
      else .tooMany := by
  by_cases hnone : words blank line = []
  · rw [hnone]
    have hstrtok : strtok (" \t\n\r".toList.contains ·) line = none := by
      cases hstrtok : strtok blank line with
      | none => exact hstrtok
      | some p =>
        obtain ⟨word, rest⟩ := p
        rw [words_of_strtok hstrtok] at hnone
        cases hnone
    rw [execCommand, hstrtok]
  · obtain ⟨first, hwords, hstrtok⟩ := words_blank_cons hnone
    have hstrtok : strtok (" \t\n\r".toList.contains ·) line = some (first, behindFirst line) :=
      hstrtok
    rw [hwords, execCommand, hstrtok]
    simp only [readArgs_eq]
    by_cases hcount : (words gap (behindFirst line)).length ≤ maxArgs
    · rw [if_pos hcount, if_pos hcount]
    · rw [if_neg hcount, if_neg hcount]

/-- A carriage return is all that can make a difference. -/
theorem words_gap_eq_iff (s : List Char) : words gap s = words blank s ↔ '\r' ∉ s := by
  constructor
  · intro heq hmem
    obtain ⟨word, hword, hin⟩ := mem_words hmem (show gap '\r' = false by decide)
    rw [heq] at hword
    cases not_delim_of_mem_words hword hin
  · intro hnot
    apply words_congr
    intro x hx
    rw [blank_eq]
    have hne : x ≠ '\r' := fun h => hnot (h ▸ hx)
    simp [hne]

/-- **The line is taken as the command `argv`**: between one and eleven words are executed, more
are not, and without a word the interpreter goes on with the next line. -/
def TakenAs (text : List Char) (argv : List Word) : Prop :=
  ∀ v calls lines p n env,
    let result := interpret v calls (text :: lines) p n env
    let later := behind v calls lines p n env
    if argv = [] then result = later
    else if argv.length ≤ 11 then ∃ events, result.1 = .attempt p n argv env :: events
    else ∃ printed, result = (.message p printed :: later.1, later.2)

/-- The calls when nothing can be executed and nothing stops a process. -/
def nothingExecuted : Process → ℕ → Calls :=
  fun _ _ => { limitCpu := true, limitMem := true, exec := none, stopped := none }

variable {text : List Char} {argv : List Word}

/-- A line without any word ends the interpreter. -/
theorem not_takenAs_of_crash (h : kind text = .crash) : ¬ TakenAs text [] := by
  intro htaken
  have heq := htaken .plain nothingExecuted [] original 1 fun _ => none
  rw [if_pos rfl, interpret_crash h] at heq
  cases heq

/-- A line with too many words is taken as any command with too many words. -/
theorem takenAs_of_tooMany (h : kind text = .tooMany) (hne : argv ≠ []) :
    TakenAs text argv ↔ 11 < argv.length := by
  constructor
  · intro htaken
    by_contra hle
    obtain ⟨events, heq⟩ := by
      simpa only [if_neg hne, if_pos (Nat.le_of_not_lt hle)] using
        htaken .plain nothingExecuted [] original 1 fun _ => none
    rw [interpret_tooMany h] at heq
    cases heq
  · intro hlt v calls lines p n env
    rw [if_neg hne, if_neg (by omega)]
    exact ⟨_, interpret_tooMany h⟩

/-- What happens for a command begins with the attempt to execute it. -/
theorem interpret_command {words : List Word} (h : kind text = .command words) (v : Version)
    (calls : Process → ℕ → Calls) (lines : List (List Char)) (p : Process) (n : ℕ) (env : Env) :
    ∃ events, (interpret v calls (text :: lines) p n env).1 = .attempt p n words env :: events := by
  cases hchild : childResult v (calls p n) with
  | inl status =>
    rw [interpret_replaced h hchild]
    exact ⟨_, rfl⟩
  | inr printed =>
    rw [interpret_returned h hchild]
    exact ⟨_, rfl⟩

/-- A line is taken as the command that is executed for it. -/
theorem takenAs_of_command {words : List Word} (h : kind text = .command words) (hne : argv ≠ []) :
    TakenAs text argv ↔ argv = words ∧ argv.length ≤ 11 := by
  constructor
  · intro htaken
    have hrun := htaken .plain nothingExecuted [] original 1 fun _ => none
    obtain ⟨events, hfirst⟩ := interpret_command h .plain nothingExecuted []
      original 1 fun _ => none
    simp only [if_neg hne] at hrun
    split at hrun
    · rename_i hle
      obtain ⟨events', heq⟩ := hrun
      rw [hfirst] at heq
      cases heq
      exact ⟨rfl, hle⟩
    · obtain ⟨printed, heq⟩ := hrun
      rw [heq] at hfirst
      cases hfirst
  · rintro ⟨rfl, hle⟩ v calls lines p n env
    simp only [if_neg hne, if_pos hle]
    exact interpret_command h v calls lines p n env

/-- Behind the first word no carriage return stands, or there are too many words whether it
separates words or not. -/
def CarriageReturnsHarmless (line : List Char) : Prop :=
  '\r' ∉ behindFirst line ∨
    maxArgs < (words blank (behindFirst line)).length ∧
      maxArgs < (words gap (behindFirst line)).length

/-- The line that `execCommand` works on. -/
def Command.line : Command → Line
  | .crash => .crash
  | .tooMany => .tooMany
  | .argv argv => .command argv

/-- A line that does not begin with `#` is a command. -/
theorem kind_of_command {text : List Char} (h : (cString text).head? ≠ some '#') :
    kind text = (execCommand (cString text)).line := by
  unfold kind
  rw [if_neg h]
  cases execCommand (cString text) <;> rfl

/-- **Splitting a command line**. A line that is no directive is taken as the list of its words
between blanks exactly when it has a word and its carriage returns are harmless. Without a word
it ends the interpreter.
SOURCE: cw03/zad1/main.c:30-55, cw03/zad2/main.c:32-58 -/
theorem takenAs_words_iff {text : List Char} (h : (cString text).head? ≠ some '#') :
    (TakenAs text (words blank (cString text)) ↔
      words blank (cString text) ≠ [] ∧ CarriageReturnsHarmless (cString text)) ∧
    (words blank (cString text) = [] → ∀ v calls lines p n env,
      interpret v calls (text :: lines) p n env = ([], .killed SIGSEGV)) := by
  have hkind := kind_of_command h
  rw [execCommand_eq] at hkind
  by_cases hnone : words blank (cString text) = []
  · rw [hnone] at hkind
    rw [hnone]
    refine ⟨⟨fun htaken => absurd htaken (not_takenAs_of_crash hkind), fun h => absurd rfl h.1⟩, ?_⟩
    intro _ v calls lines p n env
    exact interpret_crash hkind
  · obtain ⟨first, hwords, -⟩ := words_blank_cons hnone
    refine ⟨?_, fun h => absurd h hnone⟩
    rw [hwords] at hkind
    simp only at hkind
    rw [and_iff_right hnone, CarriageReturnsHarmless, ← words_gap_eq_iff]
    generalize words gap (behindFirst (cString text)) = separated at *
    generalize words blank (behindFirst (cString text)) = behind at *
    by_cases hcount : separated.length ≤ maxArgs
    · rw [if_pos hcount] at hkind
      rw [takenAs_of_command hkind hnone, hwords, List.cons_inj_right, List.length_cons]
      unfold maxArgs at *
      constructor
      · rintro ⟨heq, -⟩
        exact .inl heq.symm
      · rintro (rfl | hmany)
        · exact ⟨rfl, by omega⟩
        · omega
    · rw [if_neg hcount] at hkind
      rw [takenAs_of_tooMany hkind hnone, hwords, List.length_cons]
      unfold maxArgs at *
      constructor
      · intro hmany
        exact .inr ⟨by omega, by omega⟩
      · rintro (rfl | hmany) <;> omega

/-- A line with two words. -/
theorem takenAs_words_iff_ls :
    (TakenAs "ls -l\n".toList (words blank (cString "ls -l\n".toList)) ↔
      words blank (cString "ls -l\n".toList) ≠ [] ∧
        CarriageReturnsHarmless (cString "ls -l\n".toList)) ∧
    (words blank (cString "ls -l\n".toList) = [] → ∀ v calls lines p n env,
      interpret v calls ("ls -l\n".toList :: lines) p n env = ([], .killed SIGSEGV)) :=
  takenAs_words_iff (by decide)

/-- In a line that ends in CR LF the carriage return is in the last word. -/
theorem not_takenAs_crlf : words blank (cString "ls -l\r\n".toList) = ["ls".toList, "-l".toList] ∧
    ¬ TakenAs "ls -l\r\n".toList ["ls".toList, "-l".toList] := by
  have hkind : kind "ls -l\r\n".toList = .command ["ls".toList, "-l\r".toList] := by decide
  refine ⟨by decide, ?_⟩
  rw [takenAs_of_command hkind (by decide)]
  decide

end SystemyOperacyjne.BatchInterpreter
