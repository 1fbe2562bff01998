import Mathlib.Data.List.ReduceOption
import SystemyOperacyjne.Analysis.PipelineWiring
import SystemyOperacyjne.Library.Words

/-!
# The argument vectors of the pipeline interpreter

Both arrays are filled with the words of a string as far as they have places (`fill_eq`), so a
segment with as many words as `cmd` has places leaves none for the `NULL` behind them, and a
segment without a word leaves none in front (`exec_vector_proper_iff`).
-/

set_option autoImplicit false

namespace SystemyOperacyjne.Pipeline

open Library

variable {σ : Type} {c : Setting σ} {s s' : State σ} {ch : Child σ}

/-- **What fills an array**: the words, as many as there are places, and `NULL` behind them. -/
theorem fill_eq (delimiters : List Char) (places : ℕ) (t : List Char) :
    fill delimiters places t =
      ((words (delimiters.contains ·) t).take places).map some ++
        List.replicate (places - (words (delimiters.contains ·) t).length) none := by
  induction places generalizing t with
  | zero => simp [fill]
  | succ places ih =>
    unfold fill
    split
    · rename_i hnone
      rw [words_of_strtok_none hnone]
      rfl
    · rename_i word rest hsome
      rw [words_of_strtok hsome, ih rest]
      simp

/-- The segments of a line: what stands between the bars and is not empty. -/
def segments (line : List Char) : List (List Char) :=
  words (SEP.contains ·) (cString line)

/-- The words of a segment. -/
def wordsOf (seg : List Char) : List Word :=
  words (" \n\t\r".toList.contains ·) seg

/-- The commands are the segments, as far as the array has places. -/
theorem command_eq_some {i : ℕ} {seg : Word} (h : c.command i = some seg) :
    (segments c.line)[i]? = some seg := by
  unfold Setting.command at h
  rw [fill_eq, Option.join_eq_some_iff, List.getElem?_append] at h
  split at h
  · rw [List.getElem?_map, Option.map_eq_some_iff] at h
    obtain ⟨word, hword, heq⟩ := h
    cases heq
    rw [List.getElem?_take] at hword
    split at hword
    · exact hword
    · cases hword
  · have hmem := List.mem_of_getElem? h
    rw [List.mem_replicate] at hmem
    cases hmem.2

/-- **A vector that `execvp` may be given** for a segment: it starts with the name of a program,
has the words of the segment in order, as many as leave a place, and a `NULL` among its
entries. -/
structure ProperVector (seg : List Char) (cmd : List (Option Word)) : Prop where
  entries : cmd.length = MAX_ARGS
  name : ∃ word, cmd.head? = some (some word)
  words : cmd.reduceOption = (wordsOf seg).take (MAX_ARGS - 1)
  terminated : none ∈ cmd

/-- The vector is the first words and `NULL` behind them. -/
theorem argv_eq (seg : List Char) : argv seg =
    ((wordsOf seg).take MAX_ARGS).map some ++
      List.replicate (MAX_ARGS - (wordsOf seg).length) none :=
  fill_eq _ _ seg

/-- What is in the vector of a segment, `NULL` apart. -/
theorem argv_reduceOption (seg : List Char) :
    (argv seg).reduceOption = (wordsOf seg).take MAX_ARGS := by
  rw [argv_eq, List.reduceOption_append, List.reduceOption_replicate_none, List.append_nil]
  rw [List.reduceOption, List.filterMap_map]
  exact List.filterMap_some

/-- A `NULL` is in the vector exactly when a place is left. -/
theorem none_mem_argv (seg : List Char) :
    none ∈ argv seg ↔ (wordsOf seg).length < MAX_ARGS := by
  rw [argv_eq, List.mem_append, List.mem_replicate]
  constructor
  · rintro (hword | ⟨hplace, -⟩)
    · rw [List.mem_map] at hword
      obtain ⟨word, -, heq⟩ := hword
      cases heq
    · omega
  · intro hlt
    exact .inr ⟨by omega, rfl⟩

/-- A program name is in front exactly when there is a word. -/
theorem argv_head (seg : List Char) :
    (∃ word, (argv seg).head? = some (some word)) ↔ 1 ≤ (wordsOf seg).length := by
  rw [argv_eq]
  cases wordsOf seg with
  | nil => simp [MAX_ARGS]
  | cons word rest => simp [MAX_ARGS]

/-- **The vector of a segment is proper** exactly when the segment has a word and fewer words than
the vector has entries. -/
theorem argv_proper_iff (seg : List Char) :
    ProperVector seg (argv seg) ↔
      1 ≤ (wordsOf seg).length ∧ (wordsOf seg).length < MAX_ARGS := by
  constructor
  · intro h
    exact ⟨(argv_head seg).mp h.name, (none_mem_argv seg).mp h.terminated⟩
  · intro ⟨hword, hplace⟩
    constructor
    · exact fill_length _ _ _
    · exact (argv_head seg).mpr hword
    · rw [argv_reduceOption, List.take_of_length_le hplace.le,
        List.take_of_length_le (Nat.le_sub_one_of_lt hplace)]
    · exact (none_mem_argv seg).mpr hplace

/-- The descriptors are in order, and so is the vector of the child, in every reachable state. -/
theorem wired_reachable (h : (program c).system.Reachable s) : Wired c s := by
  have hinv : System.Invariant (program c).system (Wired c) := by
    constructor
    · intro t ht
      cases ht
      exact wired_start
    · intro t e t' ht hstep
      exact ht.step (.of_system hstep)
  exact hinv.reachable h

/-- **Argument vectors**. In every run on every line, the vector that a child has for `execvp` is
proper for its segment of the line exactly when that segment has between one and five words.
SOURCE: cw05/zad1/main.c:27-36, cw05/zad1/main.c:55-70 -/
theorem exec_vector_proper_iff (c : Setting σ) {s : State σ} {ch : Child σ}
    (h : (program c).system.Reachable s) (hchild : s.child = some ch) :
    ∃ seg, (segments c.line)[ch.index]? = some seg ∧
      (ProperVector seg ch.cmd ↔ 1 ≤ (wordsOf seg).length ∧ (wordsOf seg).length ≤ 5) := by
  have hwired := wired_reachable h
  obtain ⟨seg, hseg⟩ := Option.ne_none_iff_exists'.mp (hwired.inside hchild).command
  refine ⟨seg, command_eq_some hseg, ?_⟩
  rw [(hwired.wired ch hchild).cmd, hseg, Option.getD_some, argv_proper_iff, MAX_ARGS,
    Nat.lt_succ_iff]

/-- The interpreter on a line, for commands that exit at once. -/
def onLine (line : List Char) : Setting Unit where
  line := line
  input _ := []
  opened := []
  buffered := []
  capacity := 65536
  execvp _ := some ()
  behave _ := .exit

/-- The interpreter forks its first child, which comes to its `execvp`. -/
def firstExec : List Choice :=
  List.replicate 4 .interpreter ++ List.replicate 2 (.child 0)

/-- Where that leads on a line. -/
def atFirstExec (line : List Char) : Option (List (Option Event) × State Unit) :=
  (program (onLine line)).exec (start (onLine line)) firstExec

/-- The first command of a line is run. -/
theorem atFirstExec_reachable {line : List Char} (h : (atFirstExec line).isSome) :
    (program (onLine line)).system.Reachable ((atFirstExec line).get h).2 :=
  Machine.exec_reachable rfl firstExec h

/-- A command of two words. -/
theorem exec_vector_proper_iff_twoWords : ∃ s ch seg,
    (program (onLine "ls -l|wc\n".toList)).system.Reachable s ∧ s.child = some ch ∧
      (segments "ls -l|wc\n".toList)[ch.index]? = some seg ∧
      (ProperVector seg ch.cmd ↔ 1 ≤ (wordsOf seg).length ∧ (wordsOf seg).length ≤ 5) := by
  have hsome : (atFirstExec "ls -l|wc\n".toList).isSome := by decide +kernel
  have hreach := atFirstExec_reachable hsome
  obtain ⟨seg, hseg⟩ := exec_vector_proper_iff (onLine "ls -l|wc\n".toList) hreach rfl
  exact ⟨_, _, seg, hreach, rfl, hseg⟩

/-- With five arguments there is no `NULL` in the vector. -/
theorem exec_vector_not_proper : ∃ s ch seg,
    (program (onLine "echo a b c d e\n".toList)).system.Reachable s ∧ s.child = some ch ∧
      ch.pc = .exec ∧ (segments "echo a b c d e\n".toList)[ch.index]? = some seg ∧
      ¬ ProperVector seg ch.cmd := by
  have hsome : (atFirstExec "echo a b c d e\n".toList).isSome := by decide +kernel
  refine ⟨_, _, "echo a b c d e\n".toList, atFirstExec_reachable hsome, rfl, rfl, rfl, ?_⟩
  intro h
  have hnone : none ∈ argv "echo a b c d e\n".toList := h.terminated
  revert hnone
  decide +kernel

end SystemyOperacyjne.Pipeline
