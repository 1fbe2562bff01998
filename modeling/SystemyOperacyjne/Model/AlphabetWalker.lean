import Mathlib.Data.Int.Notation
import SystemyOperacyjne.Library.Transition

/-!
# Walking through the alphabet

`cw04/zad1/main.c`: a character is printed again and again, each time the next one or the one
before. `SIGTSTP` changes the direction; its handler may run between any two steps of the loop, and
the loop reads the direction three times in a round. `SIGINT`, which ends the program, is left out.
-/

set_option autoImplicit false

namespace SystemyOperacyjne.AlphabetWalker

open Library

/-- The points of the loop in `main`. -/
inductive Pc
  | print  -- `fprintf(stderr,"%c ",(char)symbol)`
  | testUp  -- `if(up==1)`, with what follows
  | testDown  -- `if(up==-1)`, with what follows
  | step  -- `symbol+=up`
  | usleep
  deriving DecidableEq, Repr

structure State where
  pc : Pc
  symbol : ℤ
  up : ℤ
  deriving DecidableEq, Repr

/-- What is noted of a step. -/
inductive Event
  | print (symbol : ℤ)
  | readFirst (up : ℤ)  -- the first read of `up` in a round
  | readSecond
  | readThird
  | usleep
  | signal  -- `doSIGTSTP` has run
  deriving DecidableEq, Repr

/-- Who runs. -/
inductive Choice
  | main
  | signal
  deriving DecidableEq, Repr

/-- SOURCE: cw04/zad1/main.c:15-22 -/
def doSIGTSTP (s : State) : State :=
  { s with up := if s.up = 1 then -1 else 1 }

/-- One step of the loop.
SOURCE: cw04/zad1/main.c:42-57 -/
def main (s : State) : Event × State :=
  match s.pc with
  | .print => (.print s.symbol, { s with pc := .testUp })
  | .testUp =>
    (.readFirst s.up,
      { s with pc := .testDown, symbol := if s.up = 1 ∧ 90 ≤ s.symbol then 64 else s.symbol })
  | .testDown =>
    (.readSecond,
      { s with pc := .step, symbol := if s.up = -1 ∧ s.symbol ≤ 65 then 91 else s.symbol })
  | .step => (.readThird, { s with pc := .usleep, symbol := s.symbol + s.up })
  | .usleep => (.usleep, { s with pc := .print })

/-- SOURCE: cw04/zad1/main.c:8, cw04/zad1/main.c:40 -/
def start : State where
  pc := .print
  symbol := 65
  up := 1

/-- The program, with a signal whenever it may come. -/
def program : Machine State Choice Event where
  init s := s = start
  next s
    | .main => some (main s)
    | .signal => some (.signal, doSIGTSTP s)

end SystemyOperacyjne.AlphabetWalker
