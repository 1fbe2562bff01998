import SystemyOperacyjne.Library.Signals
import SystemyOperacyjne.Library.Transition

/-!
# Requests and permissions by signals

`cw04/zad2/main.c`: a parent forks `N` children, each of which sends one `SIGUSR1` with its
index as a request. Until `K` requests have come the parent's handler only records them in
`CReq`; then `main` walks `CReq`, permits with a `SIGUSR2` whoever is recorded there, and sets
`permAfter`, from when on the handler permits at once.

Every access of `main` to `req`, `CReq` and `permAfter`, every call of `kill` and every access
of the handler is one step. `main` takes no step while the handler runs, and `SIGUSR1` is
blocked meanwhile; the children run all the time. A handler interrupts `waitpid`, which then
is not called again. What becomes of a request that is sent while one is pending is a
parameter of the model.
-/

set_option autoImplicit false

namespace SystemyOperacyjne.Permission

open Library

/-- The points of `main` in the parent. -/
inductive MainPc
  | fork (i : ℕ)  -- the loop that forks the children
  | waitRequests  -- `while(req<K)`
  | walk (i : ℕ)  -- `CReq[i]==1`
  | permit (i : ℕ)  -- `kill(CPids[i],SIGUSR2)`
  | setPermAfter  -- `permAfter=1`
  | callWait (i : ℕ)  -- before the call of `waitpid` for child `i`
  | waitChild (i : ℕ)  -- in that call
  | ended
  deriving DecidableEq, Repr

/-- The points of a run of `handler` for a `SIGUSR1`. -/
inductive HandlerPc
  | testPermAfter  -- `permAfter==1`
  | permit  -- `kill(info->si_pid,SIGUSR2)`
  | record  -- `CReq[info->si_value.sival_int]=1`
  | count  -- `req++`
  deriving DecidableEq, Repr

/-- The points of a child. -/
inductive ChildPc
  | unborn
  | work  -- the first `sleep`
  | wait  -- the second `sleep`
  | answer  -- woken by a signal, before `kill(parentPid,randomSig)`
  | exited
  deriving DecidableEq, Repr

/-- A child, and whether a `SIGUSR2` has been sent to it. -/
structure Child where
  pc : ChildPc
  permission : Bool
  deriving DecidableEq, Repr

/-- The parent's variables and signals, and the children. -/
structure State (N : ℕ) where
  main : MainPc
  req : ℕ
  cReq : Fin N → Bool
  permAfter : Bool
  handler : Option (HandlerPc × Fin N)  -- the run under way, and whose request it handles
  pending : List (Fin N)  -- the `SIGUSR1`s pending for the parent
  realtime : ℕ  -- the real-time signals pending for it
  child : Fin N → Child

/-- What is noted of a step. -/
inductive Event (N : ℕ)
  | request (c : Fin N) (pending : Bool)  -- a request is sent, with another one pending or not
  | record (c : Fin N) (passed : Bool)  -- `CReq[c]=1`, after `main` has read `CReq[c]` or before
  | permit (c : Fin N)  -- a `SIGUSR2` is sent
  | count (c : Fin N)  -- `req++`, the last access of a handler's run
  deriving DecidableEq, Repr

/-- Who steps, and how. -/
inductive Choice (N : ℕ)
  | main
  | handler
  | deliver (c : Fin N)  -- the handler is entered for a pending request
  | realtime  -- the handler runs for a real-time signal, and only prints
  | child (c : Fin N) (woken : Bool)  -- `woken`: the second `sleep` was interrupted
  deriving DecidableEq, Repr

/-- The walk over `CReq` has read `CReq[c]`. -/
def MainPc.passed (c : ℕ) : MainPc → Bool
  | .fork _ | .waitRequests => false
  | .walk i => c < i
  | .permit i => c ≤ i
  | .setPermAfter | .callWait _ | .waitChild _ | .ended => true

/-- Where `main` goes on after a handler has run: an interrupted `waitpid` is not called
again. -/
def MainPc.interrupted : MainPc → MainPc
  | .waitChild i => .callWait (i + 1)
  | pc => pc

variable {N : ℕ}

/-- `kill(pid, SIGUSR2)` for child `c`. -/
def State.permitChild (s : State N) (c : Fin N) : State N :=
  { s with child := Function.update s.child c { s.child c with permission := true } }

/-- A child is elsewhere. -/
def State.moveChild (s : State N) (c : Fin N) (pc : ChildPc) : State N :=
  { s with child := Function.update s.child c { s.child c with pc := pc } }

/-- One step of `main`; `none` while it waits in `waitpid` and when it has ended.
SOURCE: cw04/zad2/main.c:79-130 -/
def mainStep (K : ℤ) (s : State N) : Option (Option (Event N) × State N) :=
  match s.main with
  | .fork i =>
    if h : i < N then
      some (none, { s.moveChild ⟨i, h⟩ .work with main := .fork (i + 1) })
    else some (none, { s with main := .waitRequests })
  | .waitRequests => some (none, if s.req < K then s else { s with main := .walk 0 })
  | .walk i =>
    if h : i < N then
      some (none, { s with main := if s.cReq ⟨i, h⟩ then .permit i else .walk (i + 1) })
    else some (none, { s with main := .setPermAfter })
  | .permit i =>
    if h : i < N then
      some (some (.permit ⟨i, h⟩), { s.permitChild ⟨i, h⟩ with main := .walk (i + 1) })
    else none
  | .setPermAfter => some (none, { s with permAfter := true, main := .callWait 0 })
  | .callWait i => some (none, { s with main := if i < N then .waitChild i else .ended })
  | .waitChild i =>
    if h : i < N then
      if (s.child ⟨i, h⟩).pc = .exited then some (none, { s with main := .callWait (i + 1) })
      else none
    else none
  | .ended => none

/-- One step of the handler's run for a request.
SOURCE: cw04/zad2/main.c:24-42 -/
def handlerStep (s : State N) : Option (Option (Event N) × State N) :=
  match s.handler with
  | some (.testPermAfter, c) =>
    some (none, { s with handler := some (if s.permAfter then .permit else .record, c) })
  | some (.permit, c) =>
    some (some (.permit c), { s.permitChild c with handler := some (.count, c) })
  | some (.record, c) =>
    some (some (.record c (s.main.passed c)),
      { s with cReq := Function.update s.cReq c true, handler := some (.count, c) })
  | some (.count, c) => some (some (.count c), { s with req := s.req + 1, handler := none })
  | none => none

/-- One step of a child. A parent that has ended is sent nothing.
SOURCE: cw04/zad2/main.c:81-102 -/
def childStep (d : Delivery) (s : State N) (c : Fin N) (woken : Bool) :
    Option (Option (Event N) × State N) :=
  match (s.child c).pc with
  | .unborn => none
  | .work =>
    if s.main = .ended then some (none, s.moveChild c .wait)
    else some (some (.request c (!s.pending.isEmpty)),
      { s.moveChild c .wait with pending := d.post s.pending c })
  | .wait =>
    if woken then
      if (s.child c).permission then some (none, s.moveChild c .answer) else none
    else some (none, s.moveChild c .exited)
  | .answer =>
    if s.main = .ended then some (none, s.moveChild c .exited)
    else some (none, { s.moveChild c .exited with realtime := s.realtime + 1 })
  | .exited => none

/-- One step of the whole. -/
def next (d : Delivery) (K : ℤ) (s : State N) : Choice N → Option (Option (Event N) × State N)
  | .main => if s.handler = none then mainStep K s else none
  | .handler => handlerStep s
  | .deliver c =>
    if s.handler = none ∧ c ∈ s.pending ∧ s.main ≠ .ended then
      some (none, { s with pending := s.pending.erase c, handler := some (.testPermAfter, c),
                           main := s.main.interrupted })
    else none
  | .realtime =>
    if 0 < s.realtime ∧ s.main ≠ .ended then
      some (none, { s with realtime := s.realtime - 1, main := s.main.interrupted })
    else none
  | .child c woken => childStep d s c woken

/-- The parent before it forks its first child.
SOURCE: cw04/zad2/main.c:9-13, cw04/zad2/main.c:60-79 -/
def start (N : ℕ) : State N where
  main := .fork 0
  req := 0
  cReq _ := false
  permAfter := false
  handler := none
  pending := []
  realtime := 0
  child _ := { pc := .unborn, permission := false }

/-- The program with `N` children and the bound `K`. -/
def program (N : ℕ) (d : Delivery) (K : ℤ) :
    Machine (State N) (Choice N) (Option (Event N)) where
  init s := s = start N
  next := next d K

variable {d : Delivery} {K : ℤ} {s s' : State N} {e : Option (Event N)}

/-- The child that has moved. -/
@[simp] theorem State.moveChild_self (c : Fin N) (pc : ChildPc) :
    (s.moveChild c pc).child c = { s.child c with pc := pc } :=
  Function.update_self ..

/-- The others are where they were. -/
theorem State.moveChild_of_ne {c x : Fin N} (hne : x ≠ c) (pc : ChildPc) :
    (s.moveChild c pc).child x = s.child x :=
  Function.update_of_ne hne ..

/-- A permission moves nobody. -/
@[simp] theorem State.permitChild_pc (c x : Fin N) :
    ((s.permitChild c).child x).pc = (s.child x).pc := by
  by_cases hx : x = c
  · subst hx
    simp [State.permitChild]
  · simp [State.permitChild, Function.update_of_ne hx]

end SystemyOperacyjne.Permission
