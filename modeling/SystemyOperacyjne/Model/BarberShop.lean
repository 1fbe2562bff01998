import SystemyOperacyjne.Library.Transition
import SystemyOperacyjne.Model.Fifo
import SystemyOperacyjne.Model.Semaphore

/-!
# The sleeping barber

The barber and the clients of `cw07/zad1` (System V semaphores) and `cw07/zad2` (POSIX
semaphores). The two programs differ in how a client wakes the barber: in `cw07/zad1` it
raises `BARBER` twice; in `cw07/zad2` it raises `BARBER` once and waits on `SLOWER`, and the
barber, once awake, raises `BARBER` and `SLOWER`. `startWork` and `getCut` are therefore
given once, with the version as a parameter.

Every operation on a semaphore, every access to the shared memory and every `kill` is one
step. A process at a wait has no step while the semaphore is `0`, a client in `sigsuspend`
none while no `SIGRTMIN` is pending for it; a signal that arrives earlier stays pending, as
the clients block it. `printf` and `getTime` touch nothing that is shared and are part of the
step before them.
-/

set_option autoImplicit false

namespace SystemyOperacyjne.BarberShop

open Library Semaphore

/-- The two programs. -/
inductive Version
  | sysV  -- `cw07/zad1`
  | posix  -- `cw07/zad2`
  deriving DecidableEq, Repr

/-- What can be seen of a shop from outside. -/
inductive Event
  | wake (pid : ℤ)  -- the client has written `fifo->chair`
  | sit (pid : ℤ)  -- `pushFifo` has returned `0`
  | refuse (pid : ℤ)  -- `pushFifo` has returned `-1`
  | cut (pid : ℤ)  -- `kill(pid, SIGRTMIN)`
  | sleep  -- the barber has lowered `BARBER` after `popFifo` returned `-1`
  deriving DecidableEq, Repr

/-- The semaphores and the shared memory; only `cw07/zad2` has a `SLOWER`. -/
structure Shared where
  semBarber : ℕ
  semFifo : ℕ
  semCheck : ℕ
  semSlower : ℕ
  fifo : Fifo

/-- The program points of `startWork`, with `takeChair` and `cut` unfolded. -/
inductive BarberPc
  | waitBarber  -- the wait on `BARBER` at the top of the outer loop
  | postBarber  -- `sem_post(BARBER)`, in `cw07/zad2` only
  | postSlower  -- `sem_post(SLOWER)`, in `cw07/zad2` only
  | waitFifoChair  -- the wait on `FIFO` in `takeChair`
  | readChair  -- `toCut = fifo->chair`
  | postFifoChair (toCut : ℤ)  -- `FIFO` raised in `takeChair`
  | cutChair (toCut : ℤ)  -- `cut(toCut)` of the outer loop
  | waitFifo  -- the wait on `FIFO` at the top of the inner loop
  | pop (p : PopPc)  -- inside `popFifo`
  | postFifo (toCut : ℤ)  -- `FIFO` raised, somebody waited
  | cut (toCut : ℤ)  -- `cut(toCut)` of the inner loop
  | sleep  -- the wait on `BARBER`, nobody waited
  | postFifoSleep  -- `FIFO` raised, nobody waited
  deriving DecidableEq, Repr

/-- The program points of `getCut`, with `takePlace` unfolded. -/
inductive ClientPc
  | test  -- `cutsCounter < cutsNumber`
  | waitCheck  -- the wait on `CHECK`, or `CHECKER`
  | waitFifo  -- the wait on `FIFO`
  | getValue  -- the value of `BARBER` read and compared with `0`
  | postBarber  -- `BARBER` raised
  | handshake  -- `BARBER` raised again, or the wait on `SLOWER`
  | writeChair  -- `fifo->chair = myPID`
  | push (p : PushPc)  -- inside `pushFifo`
  | postFifo (res : ℤ)  -- `FIFO` raised, with what `takePlace` returned
  | postCheck (res : ℤ)  -- `CHECK` raised
  | suspend  -- in `sigsuspend`
  | left  -- `getCut` has returned
  deriving DecidableEq, Repr

/-- A client: its program point, `cutsCounter`, and the `SIGRTMIN`s pending for it. -/
structure Client where
  pc : ClientPc
  cutsCounter : ℕ
  pending : ℕ
  deriving DecidableEq, Repr

/-- One step of the barber; `none` while it is blocked.
SOURCE: cw07/zad1/barber.c:57-116, cw07/zad2/barber.c:58-104 -/
def startWork (v : Version) (m : Shared) : BarberPc → Option (Shared × BarberPc × Option Event)
  | .waitBarber =>
    (wait m.semBarber).map fun x =>
      ({ m with semBarber := x },
        match v with
        | .sysV => .waitFifoChair
        | .posix => .postBarber, none)
  | .postBarber => some ({ m with semBarber := post m.semBarber }, .postSlower, none)
  | .postSlower => some ({ m with semSlower := post m.semSlower }, .waitFifoChair, none)
  | .waitFifoChair =>
    (wait m.semFifo).map fun x => ({ m with semFifo := x }, .readChair, none)
  | .readChair => some (m, .postFifoChair m.fifo.chair, none)
  | .postFifoChair toCut => some ({ m with semFifo := post m.semFifo }, .cutChair toCut, none)
  | .cutChair toCut => some (m, .waitFifo, some (.cut toCut))
  | .waitFifo => (wait m.semFifo).map fun x => ({ m with semFifo := x }, .pop .testEmpty, none)
  | .pop p =>
    match popStep m.fifo p with
    | (f, .inl p) => some ({ m with fifo := f }, .pop p, none)
    | (f, .inr toCut) =>
      some ({ m with fifo := f }, if toCut ≠ -1 then .postFifo toCut else .sleep, none)
  | .postFifo toCut => some ({ m with semFifo := post m.semFifo }, .cut toCut, none)
  | .cut toCut => some (m, .waitFifo, some (.cut toCut))
  | .sleep =>
    (wait m.semBarber).map fun x => ({ m with semBarber := x }, .postFifoSleep, some .sleep)
  | .postFifoSleep => some ({ m with semFifo := post m.semFifo }, .waitBarber, none)

/-- One step of a client; `none` while it is blocked, suspended or gone.
SOURCE: cw07/zad1/breeder.c:53-55, cw07/zad1/breeder.c:97-156, cw07/zad2/breeder.c:55-57,
cw07/zad2/breeder.c:99-146 -/
def getCut (v : Version) (cutsNumber : ℕ) (myPID : ℤ) (m : Shared) (c : Client) :
    Option (Shared × Client × Option Event) :=
  match c.pc with
  | .test =>
    some (m, { c with pc := if c.cutsCounter < cutsNumber then .waitCheck else .left }, none)
  | .waitCheck =>
    (wait m.semCheck).map fun x => ({ m with semCheck := x }, { c with pc := .waitFifo }, none)
  | .waitFifo =>
    (wait m.semFifo).map fun x => ({ m with semFifo := x }, { c with pc := .getValue }, none)
  | .getValue =>
    some (m, { c with pc := if m.semBarber = 0 then .postBarber else .push .readHeadTail }, none)
  | .postBarber =>
    some ({ m with semBarber := post m.semBarber }, { c with pc := .handshake }, none)
  | .handshake =>
    match v with
    | .sysV => some ({ m with semBarber := post m.semBarber }, { c with pc := .writeChair }, none)
    | .posix =>
      (wait m.semSlower).map fun x =>
        ({ m with semSlower := x }, { c with pc := .writeChair }, none)
  | .writeChair =>
    some ({ m with fifo := { m.fifo with chair := myPID } }, { c with pc := .postFifo 1 },
      some (.wake myPID))
  | .push p =>
    match pushStep myPID m.fifo p with
    | (f, .inl p) => some ({ m with fifo := f }, { c with pc := .push p }, none)
    | (f, .inr res) =>
      if res = -1 then
        some ({ m with fifo := f }, { c with pc := .postFifo (-1) }, some (.refuse myPID))
      else some ({ m with fifo := f }, { c with pc := .postFifo 0 }, some (.sit myPID))
  | .postFifo res =>
    some ({ m with semFifo := post m.semFifo }, { c with pc := .postCheck res }, none)
  | .postCheck res =>
    some ({ m with semCheck := post m.semCheck },
      { c with pc := if res ≠ -1 then .suspend else .test }, none)
  | .suspend =>
    -- one pending signal is taken, and `rtminHandler` runs
    if c.pending = 0 then none
    else some (m, { pc := .test, cutsCounter := c.cutsCounter + 1, pending := c.pending - 1 }, none)
  | .left => none

/-- What the programs are started with: a number of chairs, and the clients with their pids
and the number of cuts each of them wants. -/
structure Setting (ι : Type) where
  chairNumber : ℕ
  cutsNumber : ι → ℕ
  pid : ι → ℤ
  chairNumber_valid : ¬ (chairNumber < 2 ∨ 100 < chairNumber)  -- `validatechairNumber`
  pid_pos : ∀ c, 0 < pid c
  pid_injective : Function.Injective pid

/-- The whole shop. -/
structure State (ι : Type) where
  mem : Shared
  barber : BarberPc
  client : ι → Client

/-- Who takes the next step. -/
inductive Choice (ι : Type)
  | barber
  | client (c : ι)
  deriving DecidableEq, Repr

variable {ι : Type} [DecidableEq ι]

/-- `kill(pid, SIGRTMIN)` queues a signal for the client with that pid; no other event does
anything to a client. -/
def deliver (pid : ι → ℤ) (e : Option Event) (c : ι) (t : Client) : Client :=
  if e = some (.cut (pid c)) then { t with pending := t.pending + 1 } else t

/-- The barber has stepped. -/
def State.setBarber (s : State ι) (pid : ι → ℤ) (m : Shared) (b : BarberPc) (e : Option Event) :
    State ι :=
  { mem := m, barber := b, client := fun c => deliver pid e c (s.client c) }

/-- Client `c` has stepped. -/
def State.setClient (s : State ι) (c : ι) (m : Shared) (t : Client) : State ι :=
  { s with mem := m, client := Function.update s.client c t }

/-- One step of the shop, labelled with the event that can be seen. -/
def next (v : Version) (K : Setting ι) (s : State ι) :
    Choice ι → Option (Option Event × State ι)
  | .barber =>
    (startWork v s.mem s.barber).map fun (m, b, e) => (e, s.setBarber K.pid m b e)
  | .client c =>
    (getCut v (K.cutsNumber c) (K.pid c) s.mem (s.client c)).map fun (m, t, e) =>
      (e, s.setClient c m t)

/-- The shop before anybody has taken a step.
SOURCE: cw07/zad1/barber.c:118-145, cw07/zad2/barber.c:106-134 -/
structure Start (K : Setting ι) (s : State ι) : Prop where
  semBarber : s.mem.semBarber = 0
  semFifo : s.mem.semFifo = 1
  semCheck : s.mem.semCheck = 1
  semSlower : s.mem.semSlower = 0
  fifo : ∃ f, s.mem.fifo = fifoInit f K.chairNumber
  barber : s.barber = .waitBarber
  client : ∀ c, s.client c = { pc := .test, cutsCounter := 0, pending := 0 }

/-- A start state, in cleared memory. -/
def startState (K : Setting ι) : State ι where
  mem := { semBarber := 0, semFifo := 1, semCheck := 1, semSlower := 0,
           fifo := fifoInit ⟨0, 0, 0, 0, fun _ => 0⟩ K.chairNumber }
  barber := .waitBarber
  client _ := { pc := .test, cutsCounter := 0, pending := 0 }

omit [DecidableEq ι] in
/-- The state the shop starts in. -/
theorem start_startState (K : Setting ι) : Start K (startState K) :=
  ⟨rfl, rfl, rfl, rfl, ⟨_, rfl⟩, rfl, fun _ => rfl⟩

/-- The program: one barber, any number of clients, in any order of steps. -/
def program (v : Version) (K : Setting ι) : Machine (State ι) (Choice ι) (Option Event) where
  init := Start K
  next := next v K

variable {v : Version} {K : Setting ι} {s s' : State ι} {e : Option Event}

/-- The barber's steps are steps of the shop. -/
theorem step_barber {m : Shared} {b : BarberPc} (h : startWork v s.mem s.barber = some (m, b, e)) :
    (program v K).system.step s e (s.setBarber K.pid m b e) :=
  ⟨.barber, Option.map_eq_some_iff.mpr ⟨_, h, rfl⟩⟩

/-- A client's steps are steps of the shop. -/
theorem step_client {c : ι} {m : Shared} {t : Client}
    (h : getCut v (K.cutsNumber c) (K.pid c) s.mem (s.client c) = some (m, t, e)) :
    (program v K).system.step s e (s.setClient c m t) :=
  ⟨.client c, Option.map_eq_some_iff.mpr ⟨_, h, rfl⟩⟩

/-- The client that has stepped. -/
@[simp] theorem State.setClient_self (c : ι) (m : Shared) (t : Client) :
    (s.setClient c m t).client c = t :=
  Function.update_self ..

/-- The others are where they were. -/
theorem State.setClient_of_ne {c c' : ι} (hne : c' ≠ c) (m : Shared) (t : Client) :
    (s.setClient c m t).client c' = s.client c' :=
  Function.update_of_ne hne ..

/-- What holds of the client that has stepped, and of the others before, holds of every client
after the step. -/
theorem State.forall_setClient {P : ι → Client → Prop} {c : ι} {m : Shared} {t : Client}
    (hself : P c t) (hother : ∀ c', P c' (s.client c')) (c' : ι) :
    P c' ((s.setClient c m t).client c') := by
  by_cases hc : c' = c
  · subst hc
    rwa [State.setClient_self]
  · rw [State.setClient_of_ne hc]
    exact hother c'

/-- **What a step is**: the barber or one client takes one. -/
theorem step_cases (h : (program v K).system.step s e s') :
    (∃ m b, startWork v s.mem s.barber = some (m, b, e) ∧ s' = s.setBarber K.pid m b e) ∨
    ∃ c m t, getCut v (K.cutsNumber c) (K.pid c) s.mem (s.client c) = some (m, t, e) ∧
      s' = s.setClient c m t := by
  obtain ⟨c, h⟩ := h
  cases c with
  | barber =>
    obtain ⟨⟨m, b, e'⟩, hstep, heq⟩ := Option.map_eq_some_iff.mp h
    cases heq
    exact .inl ⟨m, b, hstep, rfl⟩
  | client c =>
    obtain ⟨⟨m, t, e'⟩, hstep, heq⟩ := Option.map_eq_some_iff.mp h
    cases heq
    exact .inr ⟨c, m, t, hstep, rfl⟩

end SystemyOperacyjne.BarberShop
