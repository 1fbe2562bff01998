import SystemyOperacyjne.Library.Signals
import SystemyOperacyjne.Library.Transition
import Mathlib.Logic.Function.Basic

/-!
# Signals sent and sent back

`cw04/zad3/main.c`: a parent sends its child `L` signals, then one that ends it, and waits for
its end. The child sends every signal back, and the parent counts what comes back. `type` is the
program's `Type`: the signals are real-time ones when it is 3, and standard ones when it is 1 or
2; `SIG1` and `SIG2` stand for the two, as in what the program prints.

A pending signal is handled at any moment at which no run of the handler for the same signal is
under way in the process, on top of whatever the process is doing; `main` goes on when all runs
of the handler have returned. `sleep` may return at any time. `wait` returns when the child has
ended, and when it has been interrupted by a handler. There is no `SIGINT`, and what comes after
the parent's last line is left out.
-/

set_option autoImplicit false

namespace SystemyOperacyjne.SignalEcho

open Library

/-- The signals in use. -/
inductive Signum
  | sigusr1
  | sigusr2
  | sigrtmin
  | sigrtminPlus1  -- `SIGRTMIN+1`
  deriving DecidableEq, Repr

/-- Real-time signals are queued, the others are not. -/
def Signum.delivery : Signum → Delivery
  | .sigusr1 | .sigusr2 => .standard
  | .sigrtmin | .sigrtminPlus1 => .queued

/-- `signum == SIGUSR1 || signum == SIGRTMIN`. -/
def Signum.isSIG1 : Signum → Bool
  | .sigusr1 | .sigrtmin => true
  | .sigusr2 | .sigrtminPlus1 => false

/-- The two processes, for their numbers. `PPid` is the parent's. -/
inductive Pid
  | parent
  | child
  deriving DecidableEq, Repr

/-- The points of a run of `handler`. -/
inductive HandlerPc
  | test  -- the comparisons, with what follows up to `kill`
  | kill  -- `kill(PPid,...)`
  | leave
  deriving DecidableEq, Repr

/-- A run of `handler` under way. -/
structure Frame where
  pc : HandlerPc
  signum : Signum
  siPid : Pid
  deriving DecidableEq, Repr

/-- `handler` runs for a `SIG1` and has neither sent it back nor counted it. -/
def Frame.unanswered (f : Frame) : Bool :=
  f.signum.isSIG1 && f.pc != .leave

/-- What a process has for itself after `fork`. -/
structure Process where
  pScounter : ℕ
  cRcounter : ℕ
  pRcounter : ℕ
  pending : Signum → List Pid  -- the senders of the signals pending
  frames : List Frame  -- the runs of `handler`, each one interrupted by those before it
  exited : Bool

/-- The points of `main` in the parent. -/
inductive MainPc
  | test (i : ℕ)  -- `i<L`
  | kill (i : ℕ)  -- `SIG1`
  | count (i : ℕ)  -- `PScounter++`
  | sleep (i : ℕ)
  | killLast  -- `SIG2`
  | callWait  -- before the call of `wait`
  | waitChild (interrupted : Bool)  -- in that call
  | print  -- the line with the two counters
  | printed
  deriving DecidableEq, Repr

/-- The two processes, and where the parent's `main` is. The child's is in `while(1);`. -/
structure State where
  main : MainPc
  parent : Process
  child : Process

/-- What is noted of a step. -/
inductive Event
  | silent
  | sent (refused : Bool)  -- `SIG1` to the child; it was dropped, or there was no child
  | echoed (refused : Bool)  -- `SIG1` to the parent
  | exit (unanswered : ℕ)  -- a process ends with that many `SIG1` not answered
  | printed (sent received : ℕ)
  deriving DecidableEq, Repr

/-- Who steps, and how. -/
inductive Choice
  | main
  | handler (pid : Pid)
  | deliver (pid : Pid) (signum : Signum)  -- `handler` is called for a pending signal
  deriving DecidableEq, Repr

namespace Process

/-- A signal sent now does not become pending. -/
def refuses (p : Process) (signum : Signum) : Bool :=
  p.exited || signum.delivery.drops (p.pending signum)

/-- A signal is sent to the process. -/
def post (p : Process) (signum : Signum) (sender : Pid) : Process :=
  if p.exited then p
  else { p with pending := Function.update p.pending signum
                  (signum.delivery.post (p.pending signum) sender) }

/-- `handler` is called for the first of the signals pending; `senders` are those of the others. -/
def call (p : Process) (signum : Signum) (sender : Pid) (senders : List Pid) : Process :=
  { p with pending := Function.update p.pending signum senders
           frames := ⟨.test, signum, sender⟩ :: p.frames }

/-- The number of `SIG1` that are pending or that `handler` has not answered yet. -/
def unanswered (p : Process) : ℕ :=
  (p.pending .sigusr1).length + (p.pending .sigrtmin).length + p.frames.countP Frame.unanswered

/-- `exit(0)`. Pending signals go with the process. -/
def exit (p : Process) : Process :=
  { p with pending := fun _ => [], frames := [], exited := true }

end Process

/-- A blocking call that a handler has interrupted. -/
def MainPc.interrupt : MainPc → MainPc
  | .waitChild _ => .waitChild true
  | pc => pc

namespace State

def process (s : State) : Pid → Process
  | .parent => s.parent
  | .child => s.child

def setProcess (s : State) (pid : Pid) (p : Process) : State :=
  match pid with
  | .parent => { s with parent := p }
  | .child => { s with child := p }

/-- `handler` has been called in a process; in the parent it interrupts `main`. -/
def interrupt (s : State) : Pid → State
  | .parent => { s with main := s.main.interrupt }
  | .child => s

/-- The number of `SIG1` sent and neither counted by the parent nor lost. -/
def underWay (s : State) : ℕ :=
  s.child.unanswered + s.parent.unanswered

end State

/-- The signal that the parent sends in the loop.
SOURCE: cw04/zad3/main.c:94-102 -/
def sig1 (type : ℤ) : Option Signum :=
  if type = 3 then some .sigrtmin
  else if type = 2 then some .sigusr1
  else if type = 1 then some .sigusr1
  else none

/-- The signal that the parent sends after the loop.
SOURCE: cw04/zad3/main.c:108-116 -/
def sig2 (type : ℤ) : Option Signum :=
  if type = 3 then some .sigrtminPlus1
  else if type = 2 then some .sigusr2
  else if type = 1 then some .sigusr2
  else none

/-- One step of `main` in the parent; `none` while it waits in `wait`.
SOURCE: cw04/zad3/main.c:87-120 -/
def mainStep (type : ℤ) (L : ℕ) (s : State) : Option (Event × State) :=
  match s.main with
  | .test i => some (.silent, { s with main := if i < L then .kill i else .killLast })
  | .kill i =>
    match sig1 type with
    | some signum => some (.sent (s.child.refuses signum),
        { s with child := s.child.post signum .parent, main := .count i })
    | none => some (.silent, { s with main := .count i })
  | .count i =>
    some (.silent, { s with parent := { s.parent with pScounter := s.parent.pScounter + 1 },
                            main := .sleep i })
  | .sleep i => some (.silent, { s with main := .test (i + 1) })
  | .killLast =>
    match sig2 type with
    | some signum => some (.silent,
        { s with child := s.child.post signum .parent, main := .callWait })
    | none => some (.silent, { s with main := .callWait })
  | .callWait => some (.silent, { s with main := .waitChild false })
  | .waitChild interrupted =>
    if s.child.exited ∨ interrupted then some (.silent, { s with main := .print }) else none
  | .print =>
    some (.printed s.parent.pScounter s.parent.pRcounter, { s with main := .printed })
  | .printed => none

/-- One step of the run of `handler` that has interrupted everything else in a process.
SOURCE: cw04/zad3/main.c:27-49 -/
def handlerStep (type : ℤ) (pid : Pid) (s : State) : Option (Event × State) :=
  let p := s.process pid
  match p.frames with
  | [] => none
  | f :: frames =>
    match f.pc with
    | .test =>
      if f.signum.isSIG1 then
        if f.siPid = .parent then
          some (.silent, s.setProcess pid { p with
            cRcounter := p.cRcounter + 1, frames := { f with pc := .kill } :: frames })
        else
          some (.silent, s.setProcess pid { p with
            pRcounter := p.pRcounter + 1, frames := { f with pc := .leave } :: frames })
      else
        some (.exit p.unanswered, s.setProcess pid p.exit)
    | .kill =>
      let signum := if type = 3 then .sigrtmin else .sigusr1
      let s := s.setProcess pid { p with frames := { f with pc := .leave } :: frames }
      some (.echoed (s.parent.refuses signum), { s with parent := s.parent.post signum pid })
    | .leave => some (.silent, s.setProcess pid { p with frames := frames })

/-- `handler` is called for the first of the pending signals of a kind. The signal is blocked
while `handler` runs for it.
SOURCE: cw04/zad3/main.c:67-78 -/
def deliver (pid : Pid) (signum : Signum) (s : State) : Option (Event × State) :=
  let p := s.process pid
  match p.pending signum with
  | [] => none
  | sender :: senders =>
    if p.frames.any (·.signum = signum) then none
    else some (.silent, (s.setProcess pid (p.call signum sender senders)).interrupt pid)

/-- One step of the whole. -/
def next (type : ℤ) (L : ℕ) (s : State) : Choice → Option (Event × State)
  | .main => if s.parent.frames = [] then mainStep type L s else none
  | .handler pid => handlerStep type pid s
  | .deliver pid signum => deliver pid signum s

/-- A process right after `fork`. -/
def Process.initial : Process where
  pScounter := 0
  cRcounter := 0
  pRcounter := 0
  pending _ := []
  frames := []
  exited := false

/-- The processes right after `fork`.
SOURCE: cw04/zad3/main.c:9-15, cw04/zad3/main.c:80-93 -/
def start : State where
  main := .test 0
  parent := .initial
  child := .initial

/-- The program for its two arguments. -/
def echo (type : ℤ) (L : ℕ) : Machine State Choice Event where
  init s := s = start
  next := next type L

end SystemyOperacyjne.SignalEcho
