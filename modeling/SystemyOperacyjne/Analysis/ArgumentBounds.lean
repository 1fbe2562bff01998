import SystemyOperacyjne.Analysis.CommandSplitting
import SystemyOperacyjne.Model.ArgumentArray

/-!
# The bounds of the argument array

The array grows in step with the words, and the last `realloc` asks for as many pointers as there
are words: there is none for the `NULL` behind them. A command line whose words are all taken has a
store one past the end, and none further (`cmd_in_bounds_iff`).
-/

set_option autoImplicit false

namespace SystemyOperacyjne.BatchInterpreter

open Library

variable {v : Version} {fork : Fork} {line : List Char} {slots index allocated : ℕ}

/-- **The loop over the words** stays inside the array, and counts the words that `readArgs`
takes. The induction is on the slots left. -/
theorem argAccesses_spec (slots index : ℕ) (s : List Char) :
    (∀ a ∈ (argAccesses slots index s).1, a.index < a.allocated) ∧
      (argAccesses slots index s).2 =
        (readArgs slots s).map fun args => index + args.length := by
  induction slots generalizing index s with
  | zero =>
    rw [argAccesses, readArgs]
    cases strtok (" \n\t".toList.contains ·) s with
    | none => exact ⟨List.forall_mem_nil _, rfl⟩
    | some p => exact ⟨List.forall_mem_nil _, rfl⟩
  | succ slots ih =>
    rw [argAccesses, readArgs]
    cases strtok (" \n\t".toList.contains ·) s with
    | none => exact ⟨List.forall_mem_nil _, rfl⟩
    | some p =>
      obtain ⟨word, rest⟩ := p
      obtain ⟨hin, hcount⟩ := ih (index + 1) rest
      simp only
      constructor
      · intro a ha
        rcases List.mem_cons.mp ha with rfl | ha
        · exact Nat.lt_succ_self index
        · rcases List.mem_cons.mp ha with rfl | ha
          · exact Nat.lt_succ_self index
          · exact hin a ha
      · rw [hcount, Option.map_map]
        congr 1
        funext args
        simp only [Function.comp_apply, List.length_cons]
        omega

/-- What follows the fork goes one past the end at most. -/
theorem forkAccesses_le {a : Access} (ha : a ∈ forkAccesses v index index fork) :
    a.index ≤ a.allocated := by
  have hfree : ∀ a ∈ freeAccesses index index, a.index ≤ a.allocated := by
    intro a ha
    obtain ⟨i, hi, rfl⟩ := List.mem_map.mp ha
    exact List.mem_range.mp hi
  have hexec : ∀ a ∈ execAccesses index index, a.index ≤ a.allocated := by
    intro a ha
    rcases List.mem_cons.mp ha with rfl | ha
    · exact Nat.zero_le index
    · obtain ⟨i, hi, rfl⟩ := List.mem_map.mp ha
      exact Nat.lt_succ_iff.mp (List.mem_range.mp hi)
  unfold forkAccesses at ha
  split at ha
  · split at ha
    · exact hexec a ha
    · split at ha
      · cases ha
      · split at ha
        · cases ha
        · exact hexec a ha
  · exact hfree a ha
  · rcases List.mem_cons.mp ha with rfl | ha
    · exact Nat.zero_le index
    · exact hfree a ha
  · exact hfree a ha

/-- The accesses for a line that has words, by what is executed for it. -/
theorem cmdAccesses_eq (v : Version) (fork : Fork) (h : words blank line ≠ []) :
    ∃ before, (∀ a ∈ before, a.index < a.allocated) ∧
      cmdAccesses v fork line = before ++
        if (words gap (behindFirst line)).length ≤ maxArgs then
          ⟨(words gap (behindFirst line)).length + 1, (words gap (behindFirst line)).length + 1⟩ ::
            forkAccesses v ((words gap (behindFirst line)).length + 1)
              ((words gap (behindFirst line)).length + 1) fork
        else [] := by
  obtain ⟨first, -, hstrtok⟩ := words_blank_cons h
  have hstrtok : strtok (" \t\n\r".toList.contains ·) line = some (first, behindFirst line) :=
    hstrtok
  obtain ⟨hin, hcount⟩ := argAccesses_spec maxArgs 1 (behindFirst line)
  refine ⟨⟨0, 1⟩ :: ⟨0, 1⟩ :: (argAccesses maxArgs 1 (behindFirst line)).1, ?_, ?_⟩
  · intro a ha
    rcases List.mem_cons.mp ha with rfl | ha
    · exact Nat.zero_lt_one
    · rcases List.mem_cons.mp ha with rfl | ha
      · exact Nat.zero_lt_one
      · exact hin a ha
  · rw [readArgs_eq] at hcount
    unfold cmdAccesses
    rw [hstrtok]
    simp only
    by_cases hfew : (words gap (behindFirst line)).length ≤ maxArgs
    · rw [if_pos hfew, Option.map_some, Nat.add_comm] at hcount
      rw [if_pos hfew, ← Prod.mk.eta (p := argAccesses maxArgs 1 (behindFirst line)), hcount]
      rfl
    · rw [if_neg hfew, Option.map_none] at hcount
      rw [if_neg hfew, ← Prod.mk.eta (p := argAccesses maxArgs 1 (behindFirst line)), hcount,
        List.append_nil]

/-- **The argument array**. For every line with a word and every outcome of `fork`, no access goes
more than one past the end of the array; all of them are inside exactly when more than `maxArgs`
words follow the first, and the function returns before the terminating `NULL` is stored.
SOURCE: cw03/zad1/main.c:30-76, cw03/zad2/main.c:32-115 -/
theorem cmd_in_bounds_iff (v : Version) (fork : Fork) {line : List Char}
    (h : words blank line ≠ []) :
    (∀ a ∈ cmdAccesses v fork line, a.index ≤ a.allocated) ∧
      ((∀ a ∈ cmdAccesses v fork line, a.index < a.allocated) ↔
        maxArgs < (words gap (behindFirst line)).length) := by
  obtain ⟨before, hbefore, heq⟩ := cmdAccesses_eq v fork h
  rw [heq]
  by_cases hfew : (words gap (behindFirst line)).length ≤ maxArgs
  · rw [if_pos hfew]
    constructor
    · intro a ha
      rcases List.mem_append.mp ha with ha | ha
      · exact (hbefore a ha).le
      · rcases List.mem_cons.mp ha with rfl | ha
        · exact le_refl _
        · exact forkAccesses_le ha
    · refine iff_of_false ?_ (by omega)
      intro hall
      exact Nat.lt_irrefl _ (hall _ (List.mem_append_right _ List.mem_cons_self))
  · rw [if_neg hfew, List.append_nil]
    exact ⟨fun a ha => (hbefore a ha).le, iff_of_true hbefore (by omega)⟩

/-- With one word the array is large enough. -/
theorem cmd_in_bounds_iff_ls :
    (∀ a ∈ cmdAccesses .plain (.parent (.exited 0)) "ls -l\n".toList, a.index ≤ a.allocated) ∧
      ((∀ a ∈ cmdAccesses .plain (.parent (.exited 0)) "ls -l\n".toList,
          a.index < a.allocated) ↔
        maxArgs < (words gap (behindFirst "ls -l\n".toList)).length) :=
  cmd_in_bounds_iff .plain (.parent (.exited 0)) (by decide)

/-- For a command of one word the `NULL` is stored at index 1 of an array of one pointer. -/
theorem cmd_not_in_bounds :
    ¬ ∀ a ∈ cmdAccesses .plain (.parent (.exited 0)) "ls\n".toList, a.index < a.allocated := by
  intro hall
  have hlt := hall ⟨1, 1⟩ (by decide)
  exact Nat.lt_irrefl 1 hlt

end SystemyOperacyjne.BatchInterpreter
