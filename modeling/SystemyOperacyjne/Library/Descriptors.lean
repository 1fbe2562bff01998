import Mathlib.Data.List.Basic
import Mathlib.Data.Nat.Notation

/-!
# Descriptor tables

The descriptors of a process and the calls that change them: a new descriptor is the lowest free
one, `close` frees a descriptor, and `dup2` makes one descriptor a copy of another. What a call
does to the table is one equation about its entries.
-/

set_option autoImplicit false

namespace SystemyOperacyjne.Library

variable {H : Type*}

/-- The descriptors of a process: what is open under each number. -/
abbrev Descriptors (H : Type*) := List (Option H)

namespace Descriptors

/-- What is open under a number. -/
def entry (d : Descriptors H) (n : ℕ) : Option H :=
  d[n]?.join

/-- The lowest number under which nothing is open. -/
def lowestFree (d : Descriptors H) : ℕ :=
  d.findIdx Option.isNone

/-- Open something under a number. -/
def assign (d : Descriptors H) (n : ℕ) (h : H) : Descriptors H :=
  if n < d.length then d.set n (some h)
  else d ++ List.replicate (n - d.length) none ++ [some h]

/-- `close(n)`; nothing happens if the descriptor is not open. -/
def close (d : Descriptors H) (n : ℕ) : Descriptors H :=
  d.set n none

/-- `dup2(source, n)`; nothing happens if the source is not open. -/
def dup2 (d : Descriptors H) (source n : ℕ) : Descriptors H :=
  if source = n then d
  else
    match d.entry source with
    | none => d
    | some h => d.assign n h

/-- Something is open under some number. -/
def holds [DecidableEq H] (d : Descriptors H) (h : H) : Bool :=
  decide (some h ∈ d)

/-- Behind the table nothing is open. -/
theorem entry_of_length_le {d : Descriptors H} {n : ℕ} (h : d.length ≤ n) : d.entry n = none := by
  unfold entry
  rw [List.getElem?_eq_none h]
  rfl

/-- An assignment concerns one descriptor only. -/
theorem entry_assign (d : Descriptors H) (n : ℕ) (h : H) (m : ℕ) :
    (d.assign n h).entry m = if m = n then some h else d.entry m := by
  unfold assign
  by_cases hn : n < d.length
  · rw [if_pos hn]
    unfold entry
    by_cases hm : m = n
    · rw [hm, List.getElem?_set_self hn, if_pos rfl]
      rfl
    · rw [List.getElem?_set_ne (fun heq => hm heq.symm), if_neg hm]
  · rw [if_neg hn]
    have hlen : (d ++ List.replicate (n - d.length) none).length = n := by
      rw [List.length_append, List.length_replicate]
      omega
    unfold entry
    by_cases hm : m = n
    · rw [if_pos hm, List.getElem?_append_right (by omega), hlen, hm, Nat.sub_self]
      rfl
    · rw [if_neg hm]
      by_cases hlt : m < n
      · rw [List.getElem?_append_left (by omega)]
        by_cases hd : m < d.length
        · rw [List.getElem?_append_left hd]
        · rw [List.getElem?_append_right (by omega), List.getElem?_replicate, if_pos (by omega),
            List.getElem?_eq_none (by omega)]
          rfl
      · rw [List.getElem?_eq_none (by rw [List.length_append, hlen, List.length_singleton]; omega),
          List.getElem?_eq_none (by omega)]

/-- A `close` concerns one descriptor only. -/
theorem entry_close (d : Descriptors H) (n m : ℕ) :
    (d.close n).entry m = if m = n then none else d.entry m := by
  unfold close entry
  by_cases hm : m = n
  · rw [if_pos hm, hm]
    by_cases hn : n < d.length
    · rw [List.getElem?_set_self hn]
      rfl
    · rw [List.getElem?_eq_none (by rw [List.length_set]; omega)]
      rfl
  · rw [if_neg hm, List.getElem?_set_ne (fun heq => hm heq.symm)]

/-- What is open after a `close` was open before, under another number. -/
theorem entry_of_close {d : Descriptors H} {n m : ℕ} {h : H}
    (hm : (d.close n).entry m = some h) : m ≠ n ∧ d.entry m = some h := by
  rw [entry_close] at hm
  split at hm
  · cases hm
  · rename_i hne
    exact ⟨hne, hm⟩

/-- The copy is open under the number, and everything else is as it was. -/
theorem entry_dup2 {d : Descriptors H} {source : ℕ} {h : H} (hsource : d.entry source = some h)
    (n m : ℕ) : (d.dup2 source n).entry m = if m = n then some h else d.entry m := by
  unfold dup2
  by_cases hn : source = n
  · rw [if_pos hn]
    by_cases hm : m = n
    · rw [if_pos hm, hm, ← hn, hsource]
    · rw [if_neg hm]
  · rw [if_neg hn, hsource]
    exact entry_assign d n h m

/-- The lowest free descriptor is free. -/
theorem entry_lowestFree (d : Descriptors H) : d.entry d.lowestFree = none := by
  unfold lowestFree
  by_cases hlt : d.findIdx Option.isNone < d.length
  · have hnone := List.findIdx_getElem (w := hlt)
    unfold entry
    rw [List.getElem?_eq_getElem hlt, Option.isNone_iff_eq_none.mp hnone]
    rfl
  · exact entry_of_length_le (by omega)

/-- Below the lowest free number everything is open. -/
theorem entry_of_lt_lowestFree {d : Descriptors H} {n : ℕ} (h : n < d.lowestFree) :
    d.entry n ≠ none := by
  have hlt : n < d.length := Nat.lt_of_lt_of_le h List.findIdx_le_length
  have hnot := List.not_of_lt_findIdx h
  unfold entry
  rw [List.getElem?_eq_getElem hlt]
  intro hnone
  rw [show d[n] = none from hnone] at hnot
  cases hnot

/-- The lowest free number is `0` if nothing is open there. -/
theorem lowestFree_eq_zero {d : Descriptors H} (h : d.entry 0 = none) : d.lowestFree = 0 := by
  by_contra hne
  exact entry_of_lt_lowestFree (Nat.pos_of_ne_zero hne) h

/-- An open number is not the lowest free one. -/
theorem ne_lowestFree {d : Descriptors H} {n : ℕ} {h : H} (hn : d.entry n = some h) :
    n ≠ d.lowestFree := by
  intro heq
  rw [heq, entry_lowestFree] at hn
  cases hn

/-- A handle is held when some descriptor stands for it. -/
theorem holds_iff [DecidableEq H] {d : Descriptors H} {h : H} :
    d.holds h = true ↔ ∃ n, d.entry n = some h := by
  unfold holds entry
  rw [decide_eq_true_iff, List.mem_iff_getElem?]
  constructor
  · intro ⟨n, hn⟩
    refine ⟨n, ?_⟩
    rw [hn]
    rfl
  · intro ⟨n, hn⟩
    refine ⟨n, ?_⟩
    cases hget : d[n]? with
    | none => rw [hget] at hn; cases hn
    | some o =>
      rw [hget] at hn
      rw [show o = some h from hn]

end Descriptors

end SystemyOperacyjne.Library
