import Mathlib.Data.List.Basic
import Mathlib.Data.Nat.Notation

/-!
# Exchanging the elements of a list

Going from the back to the front, `exchanges` exchanges every element but the first with a
partner. Whatever the partners are, the list is permuted. If every partner stands strictly in
front, an element that has been taken to its place has left the place where it was, so the list
that comes out is the old one only where all its elements are equal (`eq_of_exchanges_eq`).
-/

set_option autoImplicit false

namespace SystemyOperacyjne.Library

variable {α : Type*}

/-- The list with the elements at `i` and `j` exchanged. -/
def exchange (l : List α) (i j : ℕ) : List α :=
  if h : i < l.length ∧ j < l.length then (l.set i l[j]).set j l[i] else l

/-- Exchange the element at `i` with that at `partner i`, for `i` from `m` down to 1. -/
def exchanges (partner : ℕ → ℕ) : ℕ → List α → List α
  | 0, l => l
  | i + 1, l => exchanges partner i (exchange l (i + 1) (partner (i + 1)))

/-- Nothing is lost and nothing doubled. -/
theorem exchange_perm (l : List α) (i j : ℕ) : (exchange l i j).Perm l := by
  unfold exchange
  split
  · rename_i h
    exact List.set_set_perm h.1 h.2
  · exact List.Perm.refl l

/-- The list stays as long as it is. -/
@[simp]
theorem length_exchange (l : List α) (i j : ℕ) : (exchange l i j).length = l.length :=
  (exchange_perm l i j).length_eq

/-- **Nothing is lost or duplicated.** -/
theorem exchanges_perm (partner : ℕ → ℕ) (m : ℕ) (l : List α) :
    (exchanges partner m l).Perm l := by
  induction m generalizing l with
  | zero => exact List.Perm.refl l
  | succ m ih => exact (ih _).trans (exchange_perm l _ _)

/-- What is at the places after an exchange. -/
theorem getElem?_exchange {l : List α} {i j : ℕ} (hi : i < l.length) (hj : j < l.length) (q : ℕ) :
    (exchange l i j)[q]? = if q = j then l[i]? else if q = i then l[j]? else l[q]? := by
  unfold exchange
  rw [dif_pos ⟨hi, hj⟩]
  by_cases hqj : q = j
  · subst hqj
    rw [if_pos rfl, List.getElem?_set_self (by simpa using hj), List.getElem?_eq_getElem hi]
  · rw [if_neg hqj, List.getElem?_set_ne (Ne.symm hqj)]
    by_cases hqi : q = i
    · subst hqi
      rw [if_pos rfl, List.getElem?_set_self hi, List.getElem?_eq_getElem hj]
    · rw [if_neg hqi, List.getElem?_set_ne (Ne.symm hqi)]

/-- Elements that are equal need not be exchanged. -/
theorem exchange_self {l : List α} {i j : ℕ} (hi : i < l.length) (hj : j < l.length)
    (h : l[i]? = l[j]?) : exchange l i j = l := by
  apply List.ext_getElem?
  intro q
  rw [getElem?_exchange hi hj]
  split
  · rename_i heq
    rw [heq, h]
  · split
    · rename_i heq
      rw [heq, h]
    · rfl

variable {partner : ℕ → ℕ} {m : ℕ} {l : List α}

/-- What is behind the element the exchanges begin with stays. -/
theorem getElem?_exchanges_of_lt (hp : ∀ i, 0 < i → partner i < i) (hm : m < l.length) {q : ℕ}
    (hq : m < q) : (exchanges partner m l)[q]? = l[q]? := by
  induction m generalizing l with
  | zero => rfl
  | succ m ih =>
    have hj := hp (m + 1) (Nat.succ_pos m)
    rw [exchanges, ih (by rw [length_exchange]; omega) (by omega),
      getElem?_exchange hm (by omega), if_neg (by omega), if_neg (by omega)]

/-- **The old order comes out of equal elements only**, if every partner stands in front. The
element at the back ends where its partner was, so the two are equal and the first exchange
changes nothing. The induction is on the exchanges. -/
theorem eq_of_exchanges_eq (hp : ∀ i, 0 < i → partner i < i) (hm : m < l.length)
    (h : exchanges partner m l = l) : ∀ i ≤ m, l[i]? = l[0]? := by
  induction m with
  | zero =>
    intro i hi
    rw [Nat.le_zero.mp hi]
  | succ m ih =>
    have hj := hp (m + 1) (Nat.succ_pos m)
    have hback : l[m + 1]? = l[partner (m + 1)]? := by
      have hlast := getElem?_exchanges_of_lt (l := exchange l (m + 1) (partner (m + 1))) hp
        (by rw [length_exchange]; omega) (Nat.lt_succ_self m)
      rw [exchanges] at h
      rw [h, getElem?_exchange hm (by omega), if_neg (by omega), if_pos rfl] at hlast
      exact hlast
    rw [exchanges, exchange_self hm (by omega) hback] at h
    have hfront := ih (by omega) h
    intro i hi
    rcases Nat.lt_or_eq_of_le hi with hlt | rfl
    · exact hfront i (by omega)
    · rw [hback]
      exact hfront _ (by omega)

/-- Equal elements stay as they are, whatever is exchanged. -/
theorem perm_eq_of_forall_eq {l' : List α} (h : ∀ x ∈ l, ∀ y ∈ l, x = y) (hperm : l'.Perm l) :
    l' = l := by
  cases l with
  | nil => exact hperm.eq_nil
  | cons a l =>
    have hall : ∀ x ∈ a :: l, x = a := fun x hx => h x hx a List.mem_cons_self
    rw [List.eq_replicate_of_mem hall] at hperm ⊢
    exact List.perm_replicate.mp hperm

end SystemyOperacyjne.Library
