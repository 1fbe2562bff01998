import Mathlib.Data.Int.Notation
import Mathlib.Logic.Function.Basic
import SystemyOperacyjne.Library.BoundedQueue
import SystemyOperacyjne.Library.Procedure

/-!
# The ring buffer of the barber shops

`fifo.c` and `fifo.h`, the same in `cw07/zad1` and `cw07/zad2`: a ring of `max` places in
the array `tab`, with `head = -1` when it is empty, and beside it the one cell `chair`. The
whole functions come first. The shared memory is open to other processes while a call is
under way, so each of `popFifo` and `pushFifo` is given a second time as a `Procedure`
whose steps are single accesses to the memory; `pop_finish` and `push_finish` say that the
steps, undisturbed, are the function. `ringCall` is a call with the indices of `tab` that
its steps use.
-/

set_option autoImplicit false

namespace SystemyOperacyjne.BarberShop

open Library

/-- `struct Fifo`; `tab` is the memory from `fifo->tab` on, of which `Fifo.Holds` shows that
only the first `max` cells are ever used. -/
structure Fifo where
  max : ℤ
  head : ℤ
  tail : ℤ
  chair : ℤ
  tab : ℤ → ℤ

/-- The number of cells of `tab`.
SOURCE: cw07/zad1/fifo.h:9 -/
def tabCells : ℕ := 1000

/-- Initialise the ring in memory that holds `f`.
SOURCE: cw07/zad1/fifo.c:4-9 -/
def fifoInit (f : Fifo) (cn : ℤ) : Fifo :=
  { f with max := cn, head := -1, tail := 0, chair := 0 }

/-- SOURCE: cw07/zad1/fifo.c:11-14 -/
def isEmptyFifo (f : Fifo) : Bool :=
  f.head = -1

/-- SOURCE: cw07/zad1/fifo.c:16-19 -/
def isFullFifo (f : Fifo) : Bool :=
  f.head = f.tail

/-- Take the first waiting pid to the chair; `-1` when nobody waits.
SOURCE: cw07/zad1/fifo.c:21-30 -/
def popFifo (f : Fifo) : Fifo × ℤ :=
  if isEmptyFifo f then (f, -1)
  else
    let f := { f with chair := f.tab f.head, head := f.head + 1 }
    let f := if f.head = f.max then { f with head := 0 } else f
    let f := if f.head = f.tail then { f with head := -1 } else f
    (f, f.chair)

/-- Let `x` wait behind the others; `-1` when every place is taken.
SOURCE: cw07/zad1/fifo.c:32-41 -/
def pushFifo (f : Fifo) (x : ℤ) : Fifo × ℤ :=
  if isFullFifo f then (f, -1)
  else
    let f := if isEmptyFifo f then { f with head := f.tail } else f
    let f := { f with tab := Function.update f.tab f.tail x, tail := f.tail + 1 }
    let f := if f.tail = f.max then { f with tail := 0 } else f
    (f, 0)

/-! ## The same calls, one access to the memory at a time -/

/-- The points of a call of `popFifo`, with what the call has read. -/
inductive PopPc
  | testEmpty  -- `fifo->head == -1`
  | readHead  -- `fifo->head` in `fifo->tab[fifo->head++]`
  | incHead (h : ℤ)  -- its increment
  | readTab (h : ℤ)  -- the cell of `fifo->tab`
  | writeChair (x : ℤ)  -- `fifo->chair = …`
  | readHeadMax  -- `fifo->head` in `fifo->head == fifo->max`
  | readMax (h : ℤ)  -- `fifo->max` there
  | wrapHead  -- `fifo->head = 0`
  | readHeadTail  -- `fifo->head` in `fifo->head == fifo->tail`
  | readTail (h : ℤ)  -- `fifo->tail` there
  | clearHead  -- `fifo->head = -1`
  | readChair  -- `return fifo->chair`
  deriving DecidableEq, Repr

/-- The points of a call of `pushFifo`, with what the call has read. -/
inductive PushPc
  | readHeadTail  -- `fifo->head` in `fifo->head == fifo->tail`
  | readTail (h : ℤ)  -- `fifo->tail` there
  | testEmpty  -- `fifo->head == -1`
  | readTailHead  -- `fifo->tail` in `fifo->head = fifo->tail`
  | writeHead (t : ℤ)  -- the assignment
  | readSlot  -- `fifo->tail` in `fifo->tab[fifo->tail++] = x`
  | incTail (t : ℤ)  -- its increment
  | writeTab (t : ℤ)  -- the cell of `fifo->tab`
  | readTailMax  -- `fifo->tail` in `fifo->tail == fifo->max`
  | readMax (t : ℤ)  -- `fifo->max` there
  | wrapTail  -- `fifo->tail = 0`
  deriving DecidableEq, Repr

/-- A bound on the accesses a call of `popFifo` has ahead of it. -/
def PopPc.rank : PopPc → ℕ
  | .testEmpty => 12
  | .readHead => 11
  | .incHead _ => 10
  | .readTab _ => 9
  | .writeChair _ => 8
  | .readHeadMax => 7
  | .readMax _ => 6
  | .wrapHead => 5
  | .readHeadTail => 4
  | .readTail _ => 3
  | .clearHead => 2
  | .readChair => 1

/-- A bound on the accesses a call of `pushFifo` has ahead of it. -/
def PushPc.rank : PushPc → ℕ
  | .readHeadTail => 11
  | .readTail _ => 10
  | .testEmpty => 9
  | .readTailHead => 8
  | .writeHead _ => 7
  | .readSlot => 6
  | .incTail _ => 5
  | .writeTab _ => 4
  | .readTailMax => 3
  | .readMax _ => 2
  | .wrapTail => 1

/-- One access of `popFifo`: the next point, or the pid it returns. -/
def popStep (f : Fifo) : PopPc → Fifo × (PopPc ⊕ ℤ)
  | .testEmpty => (f, if isEmptyFifo f then .inr (-1) else .inl .readHead)
  | .readHead => (f, .inl (.incHead f.head))
  | .incHead h => ({ f with head := h + 1 }, .inl (.readTab h))
  | .readTab h => (f, .inl (.writeChair (f.tab h)))
  | .writeChair x => ({ f with chair := x }, .inl .readHeadMax)
  | .readHeadMax => (f, .inl (.readMax f.head))
  | .readMax h => (f, .inl (if h = f.max then .wrapHead else .readHeadTail))
  | .wrapHead => ({ f with head := 0 }, .inl .readHeadTail)
  | .readHeadTail => (f, .inl (.readTail f.head))
  | .readTail h => (f, .inl (if h = f.tail then .clearHead else .readChair))
  | .clearHead => ({ f with head := -1 }, .inl .readChair)
  | .readChair => (f, .inr f.chair)

/-- One access of `pushFifo f x`: the next point, or the number it returns. -/
def pushStep (x : ℤ) (f : Fifo) : PushPc → Fifo × (PushPc ⊕ ℤ)
  | .readHeadTail => (f, .inl (.readTail f.head))
  | .readTail h => (f, if h = f.tail then .inr (-1) else .inl .testEmpty)
  | .testEmpty => (f, .inl (if isEmptyFifo f then .readTailHead else .readSlot))
  | .readTailHead => (f, .inl (.writeHead f.tail))
  | .writeHead t => ({ f with head := t }, .inl .readSlot)
  | .readSlot => (f, .inl (.incTail f.tail))
  | .incTail t => ({ f with tail := t + 1 }, .inl (.writeTab t))
  | .writeTab t => ({ f with tab := Function.update f.tab t x }, .inl .readTailMax)
  | .readTailMax => (f, .inl (.readMax f.tail))
  | .readMax t => (f, if t = f.max then .inl .wrapTail else .inr 0)
  | .wrapTail => ({ f with tail := 0 }, .inr 0)

/-- The call of `popFifo`. -/
def pop : Procedure Fifo PopPc ℤ where
  step := popStep
  rank := PopPc.rank
  step_rank f p f' p' h := by
    cases p <;> simp only [popStep] at h <;> (try split at h) <;> cases h <;> simp [PopPc.rank]

/-- The call of `pushFifo` with the pid `x`. -/
def push (x : ℤ) : Procedure Fifo PushPc ℤ where
  step := pushStep x
  rank := PushPc.rank
  step_rank f p f' p' h := by
    cases p <;> simp only [pushStep] at h <;> (try split at h) <;> cases h <;> simp [PushPc.rank]

/-- The index of `fifo->tab` that an access of `popFifo` uses. -/
def PopPc.tabIndex : PopPc → Option ℤ
  | .readTab h => some h
  | _ => none

/-- The index of `fifo->tab` that an access of `pushFifo` uses. -/
def PushPc.tabIndex : PushPc → Option ℤ
  | .writeTab t => some t
  | _ => none

/-- A call on the ring: what it returns, and the indices of `fifo->tab` it uses. -/
def ringCall : Object Fifo (QueueCall ℤ) (ℤ × List ℤ)
  | f, .push x =>
    ((pushFifo f x).1, (pushFifo f x).2, ((push x).trace f .readHeadTail).filterMap (·.tabIndex))
  | f, .pop => ((popFifo f).1, (popFifo f).2, (pop.trace f .testEmpty).filterMap (·.tabIndex))

/-- The number that stands for an answer of the queue. -/
def returned : QueueAnswer ℤ → ℤ
  | .full => -1
  | .pushed => 0
  | .empty => -1
  | .popped x => x

end SystemyOperacyjne.BarberShop
