import Mathlib.Data.Nat.Notation
import Mathlib.Data.Option.Basic

/-!
# Counting semaphores

`sem_wait`, and `semop` with `sem_op = -1`, take one permit and cannot return while there
is none; `sem_post`, and `semop` with `sem_op = 1`, give one permit back. The programs of
`cw07` and `cw09` use no other operation on a semaphore but reading its value.
-/

set_option autoImplicit false

namespace SystemyOperacyjne.Semaphore

/-- `sem_wait`: `none` while the caller is blocked. -/
def wait : ℕ → Option ℕ
  | 0 => none
  | v + 1 => some v

/-- `sem_post`. -/
def post (v : ℕ) : ℕ :=
  v + 1

/-- At zero it waits. -/
@[simp] theorem wait_zero : wait 0 = none := rfl

/-- Above zero it takes one. -/
@[simp] theorem wait_succ (v : ℕ) : wait (v + 1) = some v := rfl

/-- A wait returns exactly by taking one permit. -/
@[simp] theorem wait_eq_some {v v' : ℕ} : wait v = some v' ↔ v = v' + 1 := by
  cases v <;> simp [wait]

/-- A wait on a positive value returns. -/
theorem wait_of_pos {v : ℕ} (h : 0 < v) : wait v = some (v - 1) :=
  wait_eq_some.mpr (by omega)

end SystemyOperacyjne.Semaphore
