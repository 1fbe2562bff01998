import Mathlib.Data.List.Sort
import Mathlib.Order.Defs.LinearOrder

/-!
# Stable sorting by a key

A list is the stable sort of another by a key when its keys ascend and every key's elements
stand in it in their old order. There is one such list only (`StableSort.unique`), and the
library's `mergeSort` computes it.

The second half is bubble sort: `carry` takes an element through the next ones, exchanging
neighbours, and `bubble` carries the first element through a range that gets shorter with
every pass, until a pass changes nothing. `bubble_stableSort` says that this is the stable
sort; the early end is right because a pass that changes nothing has found its range sorted.
-/

set_option autoImplicit false

namespace SystemyOperacyjne.Library

variable {α κ : Type*} [LinearOrder κ]

/-- `l'` is the stable sort of `l` by `key`. -/
structure StableSort (key : α → κ) (l l' : List α) : Prop where
  sorted : l'.Pairwise fun x y => key x ≤ key y
  stable : ∀ k, l'.filter (fun x => key x = k) = l.filter (fun x => key x = k)

namespace StableSort

variable {key : α → κ} {l l' l'' : List α}

/-- The head of an ascending list has the least key. -/
theorem head_le {x y : α} {t u : List α}
    (sorted : (x :: t).Pairwise fun x y => key x ≤ key y)
    (stable : (y :: u).filter (fun z => key z = key y) = (x :: t).filter (fun z => key z = key y)) :
    key x ≤ key y := by
  have hy : y ∈ (y :: u).filter (fun z => key z = key y) := by simp
  rw [stable] at hy
  have hmem := (List.mem_filter.mp hy).1
  rcases List.mem_cons.mp hmem with rfl | hmem
  · exact le_rfl
  · exact (List.pairwise_cons.mp sorted).1 y hmem

/-- **There is one stable sort.** The induction is on the first list: both begin with the first
element of the least key. -/
theorem unique (h : StableSort key l l') (h' : StableSort key l l'') : l' = l'' := by
  obtain ⟨hsorted, hstable⟩ := h
  obtain ⟨hsorted', hstable'⟩ := h'
  have heq : ∀ k, l'.filter (fun x => key x = k) = l''.filter (fun x => key x = k) :=
    fun k => (hstable k).trans (hstable' k).symm
  clear hstable hstable'
  induction l' generalizing l'' with
  | nil =>
    cases l'' with
    | nil => rfl
    | cons y u =>
      have hy := heq (key y)
      simp at hy
  | cons x t ih =>
    cases l'' with
    | nil =>
      have hx := heq (key x)
      simp at hx
    | cons y u =>
      have hkey : key x = key y :=
        le_antisymm (head_le hsorted (heq (key y)).symm) (head_le hsorted' (heq (key x)))
      have hhead := heq (key x)
      simp only [List.filter_cons, decide_true, if_true, hkey, List.cons.injEq] at hhead
      obtain ⟨rfl, htail⟩ := hhead
      congr 1
      apply ih (List.pairwise_cons.mp hsorted).2 (List.pairwise_cons.mp hsorted').2
      intro k
      by_cases hk : key x = k
      · rw [← hk]
        exact htail
      · have hrest := heq k
        rwa [List.filter_cons_of_neg (by simpa using hk),
          List.filter_cons_of_neg (by simpa using hk)] at hrest

/-- **`mergeSort` is the stable sort.** -/
theorem mergeSort (key : α → κ) (l : List α) :
    StableSort key l (l.mergeSort fun x y => key x ≤ key y) := by
  have htrans : ∀ a b c : α, decide (key a ≤ key b) = true → decide (key b ≤ key c) = true →
      decide (key a ≤ key c) = true := by
    intro a b c hab hbc
    simp only [decide_eq_true_eq] at hab hbc ⊢
    exact hab.trans hbc
  have htotal : ∀ a b : α, (decide (key a ≤ key b) || decide (key b ≤ key a)) = true := by
    intro a b
    simpa using le_total (key a) (key b)
  have hperm := List.mergeSort_perm l fun x y => decide (key x ≤ key y)
  constructor
  · have hsorted := List.pairwise_mergeSort htrans htotal l
    exact hsorted.imp fun h => by simpa using h
  · intro k
    have hequal : (l.filter fun x => key x = k).Pairwise fun x y => decide (key x ≤ key y) := by
      apply List.pairwise_of_forall_mem_list
      intro x hx y hy
      have hxk : key x = k := by simpa using (List.mem_filter.mp hx).2
      have hyk : key y = k := by simpa using (List.mem_filter.mp hy).2
      simp [hxk, hyk]
    have hsub := List.sublist_mergeSort htrans htotal hequal List.filter_sublist
    have hsub' := hsub.filter fun x => decide (key x = k)
    rw [List.filter_filter] at hsub'
    simp only [Bool.and_self] at hsub'
    exact (hsub'.eq_of_length (hperm.filter _).length_eq.symm).symm

end StableSort

/-! ## Bubble sort -/

/-- Take `x` through the next `k` elements, exchanging neighbours that stand the wrong way
round; and whether any were. -/
def carry (key : α → κ) : α → ℕ → List α → List α × Bool
  | x, 0, rest => (x :: rest, false)
  | x, _ + 1, [] => ([x], false)
  | x, k + 1, y :: rest =>
    if key y < key x then (y :: (carry key x k rest).1, true)
    else (x :: (carry key y k rest).1, (carry key y k rest).2)

/-- Passes over the first `n` elements, then over one less, and so on, until a pass changes
nothing or one element is left. -/
def bubble (key : α → κ) : ℕ → List α → List α
  | 0, l => l
  | _ + 1, [] => []
  | n + 1, x :: rest =>
    let (l, change) := carry key x n rest
    if change ∧ 1 < n then bubble key n l else l

variable {key : α → κ}

/-- Those with one key stay in their order. -/
theorem carry_stable (x : α) (k : ℕ) (rest : List α) (q : κ) :
    (carry key x k rest).1.filter (fun z => key z = q) =
      (x :: rest).filter (fun z => key z = q) := by
  induction k generalizing x rest with
  | zero => rfl
  | succ k ih =>
    cases rest with
    | nil => rfl
    | cons y rest =>
      unfold carry
      split
      · rename_i hlt
        dsimp only
        rw [List.filter_cons, ih]
        -- the two that change places have different keys
        by_cases hy : key y = q
        · have hx : ¬ key x = q := by
            intro hx
            rw [hx, hy] at hlt
            exact lt_irrefl q hlt
          simp [hx, hy]
        · simp [List.filter_cons, hy]
      · simp only [List.filter_cons, ih]

/-- Carrying keeps what is there. -/
theorem mem_carry {x : α} {k : ℕ} {rest : List α} {z : α} :
    z ∈ (carry key x k rest).1 ↔ z ∈ x :: rest := by
  have h : (carry key x k rest).1.filter (fun y => key y = key z) =
      (x :: rest).filter (fun y => key y = key z) := carry_stable x k rest (key z)
  have hmem : ∀ l : List α, z ∈ l.filter (fun y => key y = key z) ↔ z ∈ l := by
    intro l
    simp [List.mem_filter]
  rw [← hmem, h, hmem]

/-- Carrying keeps the length. -/
theorem length_carry {x : α} {k : ℕ} {rest : List α} :
    (carry key x k rest).1.length = (x :: rest).length := by
  induction k generalizing x rest with
  | zero => rfl
  | succ k ih =>
    cases rest with
    | nil => rfl
    | cons y rest =>
      unfold carry
      split
      · rw [List.length_cons, ih]
        rfl
      · rw [List.length_cons, ih]
        rfl

/-- What a pass does: a greatest element ends up behind the others it was compared with. -/
theorem carry_front (key : α → κ) (x : α) {k : ℕ} {rest : List α} (hk : k ≤ rest.length) :
    ∃ front m, (carry key x k rest).1 = front ++ m :: rest.drop k ∧ front.length = k ∧
      (front ++ [m]).Perm (x :: rest.take k) ∧ ∀ z ∈ front, key z ≤ key m := by
  induction k generalizing x rest with
  | zero => exact ⟨[], x, rfl, rfl, by simp, by simp⟩
  | succ k ih =>
    cases rest with
    | nil => simp at hk
    | cons y rest =>
      have hk' : k ≤ rest.length := by simpa using hk
      unfold carry
      split
      · rename_i hlt
        obtain ⟨front, m, heq, hlen, hperm, hle⟩ := ih x hk'
        refine ⟨y :: front, m, ?_, ?_, ?_, ?_⟩
        · simp [heq]
        · simp [hlen]
        · simpa using (hperm.cons y).trans (List.Perm.swap x y _)
        · have hxm : key x ≤ key m := by
            have hx : x ∈ front ++ [m] := hperm.mem_iff.mpr List.mem_cons_self
            rcases List.mem_append.mp hx with hx | hx
            · exact hle x hx
            · rw [List.mem_singleton.mp hx]
          intro z hz
          rcases List.mem_cons.mp hz with rfl | hz
          · exact hlt.le.trans hxm
          · exact hle z hz
      · rename_i hnlt
        obtain ⟨front, m, heq, hlen, hperm, hle⟩ := ih y hk'
        refine ⟨x :: front, m, ?_, ?_, ?_, ?_⟩
        · simp [heq]
        · simp [hlen]
        · simpa using hperm.cons x
        · have hym : key y ≤ key m := by
            have hy : y ∈ front ++ [m] := hperm.mem_iff.mpr List.mem_cons_self
            rcases List.mem_append.mp hy with hy | hy
            · exact hle y hy
            · rw [List.mem_singleton.mp hy]
          intro z hz
          rcases List.mem_cons.mp hz with rfl | hz
          · exact (not_lt.mp hnlt).trans hym
          · exact hle z hz

/-- A pass that exchanges nothing has found its range sorted. -/
theorem carry_unchanged {x : α} {k : ℕ} {rest : List α} (hk : k ≤ rest.length)
    (h : (carry key x k rest).2 = false) :
    (carry key x k rest).1 = x :: rest ∧
      (x :: rest.take k).Pairwise fun x y => key x ≤ key y := by
  induction k generalizing x rest with
  | zero => exact ⟨rfl, by simp⟩
  | succ k ih =>
    cases rest with
    | nil => simp at hk
    | cons y rest =>
      unfold carry at h ⊢
      split at h
      · cases h
      · rename_i hnlt
        rw [if_neg hnlt]
        obtain ⟨heq, hsorted⟩ := ih (by simpa using hk) h
        refine ⟨by rw [heq], ?_⟩
        rw [List.take_succ_cons]
        apply List.pairwise_cons.mpr
        refine ⟨?_, hsorted⟩
        have hxy := not_lt.mp hnlt
        intro z hz
        rcases List.mem_cons.mp hz with rfl | hz
        · exact hxy
        · exact hxy.trans ((List.pairwise_cons.mp hsorted).1 z hz)

/-- **The sort is stable.** -/
theorem bubble_stable (n : ℕ) (l : List α) (q : κ) :
    (bubble key n l).filter (fun z => key z = q) = l.filter (fun z => key z = q) := by
  induction n generalizing l with
  | zero => rfl
  | succ n ih =>
    cases l with
    | nil => rfl
    | cons x rest =>
      unfold bubble
      dsimp only
      split
      · rw [ih, carry_stable]
      · exact carry_stable ..

/-- **The passes sort**, when what is behind the range is sorted and greater. The induction is
on the range, whose last element the pass has made a greatest one. -/
theorem bubble_sorted {n : ℕ} {front back : List α} (hn : front.length = n)
    (hback : back.Pairwise fun x y => key x ≤ key y)
    (hle : ∀ x ∈ front, ∀ y ∈ back, key x ≤ key y) :
    (bubble key n (front ++ back)).Pairwise fun x y => key x ≤ key y := by
  induction n generalizing front back with
  | zero =>
    rw [List.length_eq_zero_iff.mp hn]
    exact hback
  | succ n ih =>
    cases front with
    | nil => simp at hn
    | cons x rest =>
      have hlen : rest.length = n := by simpa using hn
      have htake : (rest ++ back).take n = rest := by rw [← hlen, List.take_left]
      have hdrop : (rest ++ back).drop n = back := by rw [← hlen, List.drop_left]
      have hk : n ≤ (rest ++ back).length := by
        rw [List.length_append]
        omega
      rw [List.cons_append]
      unfold bubble
      dsimp only
      obtain ⟨front, m, heq, hfront, hperm, hm⟩ := carry_front key x hk
      rw [htake] at hperm
      rw [hdrop] at heq
      have hmem : ∀ z, z ∈ front ++ [m] → ∀ y ∈ back, key z ≤ key y :=
        fun z hz => hle z (hperm.mem_iff.mp hz)
      have hback' : (m :: back).Pairwise fun x y => key x ≤ key y :=
        List.pairwise_cons.mpr ⟨hmem m (by simp), hback⟩
      have hle' : ∀ z ∈ front, ∀ y ∈ m :: back, key z ≤ key y := by
        intro z hz y hy
        rcases List.mem_cons.mp hy with rfl | hy
        · exact hm z hz
        · exact hmem z (List.mem_append_left _ hz) y hy
      split
      · rw [heq]
        exact ih hfront hback' hle'
      · rename_i hstop
        cases hchange : (carry key x n (rest ++ back)).2 with
        | false =>
          obtain ⟨hsame, hsorted⟩ := carry_unchanged hk hchange
          rw [hsame, ← List.cons_append]
          rw [htake] at hsorted
          exact List.pairwise_append.mpr ⟨hsorted, hback, hle⟩
        | true =>
          -- one comparison at most is left, so the range has one element at most
          have hn1 : n ≤ 1 := by
            by_contra hgt
            exact hstop ⟨hchange, by omega⟩
          rw [heq]
          apply List.pairwise_append.mpr
          refine ⟨?_, hback', hle'⟩
          cases front with
          | nil => exact .nil
          | cons a t =>
            cases t with
            | nil => exact List.pairwise_singleton _ _
            | cons b t =>
              simp only [List.length_cons] at hfront
              omega

/-- **Bubble sort is the stable sort.** -/
theorem bubble_stableSort (key : α → κ) (l : List α) :
    StableSort key l (bubble key l.length l) := by
  constructor
  · have h : (bubble key l.length (l ++ [])).Pairwise fun x y => key x ≤ key y :=
      bubble_sorted rfl .nil (by simp)
    rwa [List.append_nil] at h
  · exact bubble_stable l.length l

/-- **The sort is the stable sort** of the library. -/
theorem bubble_eq_mergeSort (key : α → κ) (l : List α) :
    bubble key l.length l = l.mergeSort fun x y => key x ≤ key y :=
  (bubble_stableSort key l).unique (.mergeSort key l)

end SystemyOperacyjne.Library
