import Mathlib.Algebra.BigOperators.Fin
import Mathlib.Algebra.BigOperators.Group.Finset.Piecewise
import Mathlib.Algebra.Order.BigOperators.Group.Finset

/-!
# Counting the members of a family of processes

An unbounded set of processes is seen through numbers only: `census w pc` adds the
weight `w` of every process's program point, and `count pc k` is the number of
processes that stand at `k`. One process's move changes a census by the difference of
two weights (`census_update`), and one move of a whole crowd from one point to another
is `count_redirect`; with these two lemmas an invariant over any number of processes is
linear arithmetic in its counts.
-/

set_option autoImplicit false

namespace SystemyOperacyjne.Library

variable {ι P K : Type*} [Fintype ι]

/-- The sum of the weights of all processes. -/
def census (w : P → ℕ) (pc : ι → P) : ℕ :=
  ∑ i, w (pc i)

/-- The number of processes that stand at `k`. -/
def count [DecidableEq K] (pc : ι → K) (k : K) : ℕ :=
  census (fun p => if p = k then 1 else 0) pc

/-- One process's weight is part of the census. -/
theorem le_census (w : P → ℕ) (pc : ι → P) (i : ι) : w (pc i) ≤ census w pc :=
  Finset.single_le_sum (f := fun i => w (pc i)) (fun _ _ => Nat.zero_le _) (Finset.mem_univ i)

/-- Two processes' weights together are part of the census. -/
theorem add_le_census [DecidableEq ι] (w : P → ℕ) (pc : ι → P) {i j : ι} (h : i ≠ j) :
    w (pc i) + w (pc j) ≤ census w pc := by
  rw [← Finset.sum_pair (f := fun i => w (pc i)) h]
  exact Finset.sum_le_sum_of_subset (Finset.subset_univ _)

/-- A positive census has a process of positive weight. -/
theorem exists_of_census_pos {w : P → ℕ} {pc : ι → P} (h : 0 < census w pc) :
    ∃ i, 0 < w (pc i) := by
  by_contra hne
  push Not at hne
  have : census w pc = 0 := Finset.sum_eq_zero fun i _ => Nat.le_zero.mp (hne i)
  omega

/-- A census of a family of processes that all stand at points of weight `0`. -/
theorem census_eq_zero {w : P → ℕ} {pc : ι → P} (h : ∀ i, w (pc i) = 0) : census w pc = 0 :=
  Finset.sum_eq_zero fun i _ => h i

/-- A census of weights up to `1` misses the processes of weight `0`. -/
theorem census_lt_card {w : P → ℕ} {pc : ι → P} (h : ∀ i, w (pc i) ≤ 1) {i : ι}
    (hi : w (pc i) = 0) : census w pc < Fintype.card ι := by
  have hlt : ∑ j, w (pc j) < ∑ _j : ι, 1 := by
    apply Finset.sum_lt_sum
    · exact fun j _ => h j
    · exact ⟨i, Finset.mem_univ i, by omega⟩
  simpa [census] using hlt

/-- A census below the number of processes has a process of weight `0`. -/
theorem exists_eq_zero_of_census_lt {w : P → ℕ} {pc : ι → P}
    (h : census w pc < Fintype.card ι) : ∃ i, w (pc i) = 0 := by
  by_contra hne
  have hle : ∑ _j : ι, 1 ≤ census w pc := by
    apply Finset.sum_le_sum
    intro i _
    exact Nat.one_le_iff_ne_zero.mpr fun hi => hne ⟨i, hi⟩
  simp at hle
  omega

/-- **One process moves**: the census loses the old weight and gains the new one. -/
theorem census_update [DecidableEq ι] (w : P → ℕ) (pc : ι → P) (i : ι) (p : P) :
    census w (Function.update pc i p) + w (pc i) = census w pc + w p := by
  have hold := Finset.add_sum_erase Finset.univ (fun j => w (pc j)) (Finset.mem_univ i)
  have hnew := Finset.add_sum_erase Finset.univ
    (fun j => w (Function.update pc i p j)) (Finset.mem_univ i)
  have hrest : ∑ j ∈ Finset.univ.erase i, w (Function.update pc i p j) =
      ∑ j ∈ Finset.univ.erase i, w (pc j) :=
    Finset.sum_congr rfl fun j hj => by
      rw [Function.update_of_ne (Finset.ne_of_mem_erase hj)]
  simp only [Function.update_self] at hnew
  unfold census
  omega

section Count

variable [DecidableEq K]

/-- A process is counted where it stands. -/
theorem count_pos (pc : ι → K) (i : ι) : 0 < count pc (pc i) := by
  have h := le_census (fun p => if p = pc i then 1 else 0) pc i
  rw [if_pos rfl] at h
  exact h

/-- A point with a positive count has a process. -/
theorem exists_of_count_pos (pc : ι → K) {k : K} (h : 0 < count pc k) : ∃ i, pc i = k := by
  obtain ⟨i, hi⟩ := exists_of_census_pos h
  by_contra hne
  push Not at hne
  simp [hne i] at hi

/-- Nobody stands at a point nobody stands at. -/
theorem count_eq_zero {pc : ι → K} {k : K} (h : ∀ i, pc i ≠ k) : count pc k = 0 :=
  census_eq_zero fun i => by simp [h i]

/-- Two processes at one point are counted twice. -/
theorem two_le_count [DecidableEq ι] {pc : ι → K} {k : K} {i j : ι} (h : i ≠ j) (hi : pc i = k)
    (hj : pc j = k) : 2 ≤ count pc k := by
  have := add_le_census (fun p => if p = k then 1 else 0) pc h
  simpa [count, hi, hj] using this

/-- **One process moves**: it leaves the count of its old point and joins the new one.
The program point is a field of the process's state. -/
theorem count_update [DecidableEq ι] (point : P → K) (proc : ι → P) (i : ι) (p : P) (k : K) :
    count (fun j => point (Function.update proc i p j)) k +
        (if point (proc i) = k then 1 else 0) =
      count (fun j => point (proc j)) k + (if point p = k then 1 else 0) :=
  census_update (fun p => if point p = k then 1 else 0) proc i p

/-- **A crowd moves**: everybody at `a` goes to `b`. -/
theorem count_redirect (pc : ι → K) {a b : K} (hab : a ≠ b) (k : K) :
    count (fun i => if pc i = a then b else pc i) k =
      if k = a then 0 else if k = b then count pc b + count pc a else count pc k := by
  unfold count census
  rcases eq_or_ne k a with rfl | ha
  · rw [if_pos rfl]
    apply Finset.sum_eq_zero
    intro i _
    by_cases hi : pc i = k
    · simp [hi, hab.symm]
    · simp [hi]
  rcases eq_or_ne k b with rfl | hb
  · rw [if_neg ha, if_pos rfl, ← Finset.sum_add_distrib]
    apply Finset.sum_congr rfl
    intro i _
    by_cases hi : pc i = a
    · simp [hi, hab]
    · simp [hi]
  · rw [if_neg ha, if_neg hb]
    apply Finset.sum_congr rfl
    intro i _
    by_cases hi : pc i = a
    · simp [hi, ha.symm, hb.symm]
    · simp [hi]

end Count

end SystemyOperacyjne.Library
