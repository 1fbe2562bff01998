import SystemyOperacyjne.Analysis.FifoQueue

/-!
# The ring buffer refines the bounded queue

Over any sequence of calls the ring answers as the queue of its capacity does, keeps to the
cells of its capacity, and has in `chair` what was popped last (`ringCall_refines`). A call that
is refused, and only such a call, leaves the ring as it was.
-/

set_option autoImplicit false

namespace SystemyOperacyjne.BarberShop

open Library

variable {N : ℕ} {f : Fifo} {q : List ℤ}

/-! ## The cells a call uses -/

/-- From a point behind its access to `tab`, a pop uses no cell any more. -/
theorem pop_trace_tabIndex (f : Fifo) {p : PopPc} (hp : p.rank ≤ 8) :
    (pop.trace f p).filterMap (·.tabIndex) = [] := by
  rw [List.filterMap_eq_nil_iff]
  intro r hr
  have hrank := (pop.rank_le_of_mem_trace f p r hr).trans hp
  cases r with
  | readTab h => exact absurd hrank (Nat.not_succ_le_self 8)
  | _ => rfl

/-- From a point behind its access to `tab`, a push uses no cell any more. -/
theorem push_trace_tabIndex (f : Fifo) (x : ℤ) {p : PushPc} (hp : p.rank ≤ 3) :
    ((push x).trace f p).filterMap (·.tabIndex) = [] := by
  rw [List.filterMap_eq_nil_iff]
  intro r hr
  have hrank := ((push x).rank_le_of_mem_trace f p r hr).trans hp
  cases r with
  | writeTab t => exact absurd hrank (Nat.not_succ_le_self 3)
  | _ => rfl

/-- A pop reads the cell at the head, and none when the ring is empty. -/
theorem pop_uses (f : Fifo) :
    (pop.trace f .testEmpty).filterMap (·.tabIndex) =
      if isEmptyFifo f then [] else [f.head] := by
  by_cases hempty : isEmptyFifo f = true
  · have hstep : popStep f .testEmpty = (f, .inr (-1)) := by rw [popStep, if_pos hempty]
    rw [if_pos hempty]
    exact Procedure.uses_of_return hstep rfl
  · have hstep : popStep f .testEmpty = (f, .inl .readHead) := by rw [popStep, if_neg hempty]
    rw [if_neg hempty]
    apply (Procedure.uses_of_call hstep rfl).trans
    apply (Procedure.uses_of_call rfl rfl).trans
    apply (Procedure.uses_of_call rfl rfl).trans
    have huse : (PopPc.readTab f.head).tabIndex = some f.head := rfl
    apply (Procedure.uses_of_call_some rfl huse).trans
    apply congrArg
    exact pop_trace_tabIndex _ (Nat.le_refl 8)

/-- The end of a push writes the cell at the tail. -/
theorem push_uses_slot (f : Fifo) (x : ℤ) :
    ((push x).trace f .readSlot).filterMap (·.tabIndex) = [f.tail] := by
  apply (Procedure.uses_of_call rfl rfl).trans
  apply (Procedure.uses_of_call rfl rfl).trans
  have huse : (PushPc.writeTab f.tail).tabIndex = some f.tail := rfl
  apply (Procedure.uses_of_call_some rfl huse).trans
  apply congrArg
  exact push_trace_tabIndex _ x (Nat.le_refl 3)

/-- A push writes the cell at the tail, and none when the ring is full. -/
theorem push_uses (f : Fifo) (x : ℤ) :
    ((push x).trace f .readHeadTail).filterMap (·.tabIndex) =
      if isFullFifo f then [] else [f.tail] := by
  unfold isFullFifo
  apply (Procedure.uses_of_call rfl rfl).trans
  by_cases hfull : f.head = f.tail
  · have hstep : pushStep x f (.readTail f.head) = (f, .inr (-1)) := by
      rw [pushStep, if_pos hfull]
    rw [if_pos (decide_eq_true hfull)]
    exact Procedure.uses_of_return hstep rfl
  · have hstep : pushStep x f (.readTail f.head) = (f, .inl .testEmpty) := by
      rw [pushStep, if_neg hfull]
    rw [if_neg (by simpa using hfull)]
    apply (Procedure.uses_of_call hstep rfl).trans
    by_cases hempty : isEmptyFifo f = true
    · have hstep : pushStep x f .testEmpty = (f, .inl .readTailHead) := by
        rw [pushStep, if_pos hempty]
      apply (Procedure.uses_of_call hstep rfl).trans
      apply (Procedure.uses_of_call rfl rfl).trans
      apply (Procedure.uses_of_call rfl rfl).trans
      exact push_uses_slot _ x
    · have hstep : pushStep x f .testEmpty = (f, .inl .readSlot) := by
        rw [pushStep, if_neg hempty]
      apply (Procedure.uses_of_call hstep rfl).trans
      exact push_uses_slot _ x

/-! ## What a call changes -/

/-- A pop leaves in the chair what it returns, unless nobody waited. -/
theorem popFifo_chair (f : Fifo) :
    (popFifo f).1.chair = if isEmptyFifo f then f.chair else (popFifo f).2 := by
  unfold popFifo
  by_cases hempty : isEmptyFifo f = true
  · rw [if_pos hempty, if_pos hempty]
  · rw [if_neg hempty, if_neg hempty]

/-- A push does not touch the chair. -/
theorem pushFifo_chair (f : Fifo) (x : ℤ) : (pushFifo f x).1.chair = f.chair := by
  unfold pushFifo
  dsimp only
  split_ifs <;> rfl

/-- A pop that succeeds moves the head. -/
theorem popFifo_unchanged (h : f.Holds N q) : popFifo f = (f, -1) ↔ q = [] := by
  rw [← h.isEmptyFifo_iff]
  constructor
  · intro hpop
    by_contra hempty
    have hq : q ≠ [] := fun hq => hempty (h.isEmptyFifo_iff.mpr hq)
    obtain ⟨h0, hlt, hslot⟩ := h.head hq
    have hpos := List.length_pos_iff.mpr hq
    have hfits := h.fits
    have hmax := h.max
    have hhead := congrArg (fun p => p.1.head) hpop
    rw [popFifo, if_neg hempty] at hhead
    unfold slot at hslot
    dsimp only at hhead
    split_ifs at hhead hslot <;> dsimp only at * <;> omega
  · intro hempty
    rw [popFifo, if_pos hempty]

/-- A push that is not refused returns another number. -/
theorem pushFifo_unchanged (h : f.Holds N q) (x : ℤ) :
    pushFifo f x = (f, -1) ↔ q.length = N := by
  rw [← h.isFullFifo_iff]
  constructor
  · intro hpush
    by_contra hfull
    rw [pushFifo, if_neg hfull] at hpush
    cases congrArg Prod.snd hpush
  · intro hfull
    rw [pushFifo, if_pos hfull]

/-! ## Whole sequences of calls -/

/-- The ring of `N` places holds what waits in the queue, and in the chair what was popped
last. -/
structure Represents (N : ℕ) (f : Fifo) (q : BoundedQueue ℤ) : Prop where
  holds : f.Holds N q.waiting
  chair : f.chair = q.last.getD 0

/-- The number returned stands for the queue's answer, and the call kept to the cells below
`N`. -/
def Answers (N : ℕ) (r : ℤ × List ℤ) (a : QueueAnswer ℤ) : Prop :=
  r.1 = returned a ∧ ∀ i ∈ r.2, 0 ≤ i ∧ i < (N : ℤ)

/-- **One call** on the ring is the call on the queue. -/
theorem ringCall_refines (N : ℕ) :
    Object.Refines ringCall (BoundedQueue.object N) (Represents N) (Answers N) := by
  intro f ⟨waiting, last⟩ c ⟨hholds, hchair⟩
  simp only at hholds hchair
  cases c with
  | push x =>
    have hpush := pushFifo_holds hholds x
    have huses : ∀ i ∈ (ringCall f (.push x)).2.2, 0 ≤ i ∧ i < (N : ℤ) := by
      intro i hi
      rw [ringCall, push_uses] at hi
      split at hi
      · cases hi
      · rw [List.mem_singleton.mp hi]
        exact ⟨hholds.tail_nonneg, hholds.tail_lt⟩
    simp only [BoundedQueue.object]
    by_cases hroom : waiting.length < N
    · rw [Pushed, if_pos hroom] at hpush
      rw [if_pos hroom]
      exact ⟨⟨hpush.2, (pushFifo_chair f x).trans hchair⟩, hpush.1, huses⟩
    · rw [Pushed, if_neg hroom] at hpush
      rw [if_neg hroom]
      exact ⟨⟨hpush.2, (pushFifo_chair f x).trans hchair⟩, hpush.1, huses⟩
  | pop =>
    have hpop := popFifo_holds hholds
    have hleft := popFifo_chair f
    have huses : ∀ i ∈ (ringCall f .pop).2.2, 0 ≤ i ∧ i < (N : ℤ) := by
      intro i hi
      rw [ringCall, pop_uses] at hi
      split at hi
      · cases hi
      · rename_i hempty
        rw [List.mem_singleton.mp hi]
        obtain ⟨h0, hlt, -⟩ := hholds.head (fun hq => hempty (hholds.isEmptyFifo_iff.mpr hq))
        exact ⟨h0, hlt⟩
    cases waiting with
    | nil =>
      rw [if_pos (hholds.isEmptyFifo_iff.mpr rfl)] at hleft
      exact ⟨⟨hpop.2, hleft.trans hchair⟩, hpop.1, huses⟩
    | cons x waiting =>
      rw [if_neg (fun hempty => by cases hholds.isEmptyFifo_iff.mp hempty)] at hleft
      exact ⟨⟨hpop.2, hleft.trans hpop.1⟩, hpop.1, huses⟩

/-- The initialised ring is the new queue. -/
theorem fifoInit_represents (mem : Fifo) (hN : 1 ≤ N) :
    Represents N (fifoInit mem N) BoundedQueue.new where
  holds := fifoInit_holds mem hN
  chair := rfl

/-- **Refinement**. Over every sequence of calls after `fifoInit`, every answer is the bounded
queue's and every cell used is one of the first `cn`; then the chair has the pid popped last,
or 0, a push returns `-1` and changes nothing exactly when `cn` pids wait, and a pop exactly
when none does.
SOURCE: cw07/zad1/fifo.c:4-41, cw07/zad2/fifo.c:4-41 -/
theorem fifo_refines_boundedQueue (mem : Fifo) {cn : ℕ} (hpos : 1 ≤ cn) (hle : cn ≤ tabCells)
    (calls : List (QueueCall ℤ)) :
    let ring := Object.run ringCall (fifoInit mem cn) calls
    let queue := (BoundedQueue.object cn).run BoundedQueue.new calls
    List.Forall₂
      (fun r a => r.1 = returned a ∧ ∀ i ∈ r.2, (0 ≤ i ∧ i < (cn : ℤ)) ∧ i < (tabCells : ℤ))
      ring.2 queue.2 ∧
    ring.1.chair = queue.1.last.getD 0 ∧
    (∀ x, pushFifo ring.1 x = (ring.1, -1) ↔ queue.1.waiting.length = cn) ∧
    (popFifo ring.1 = (ring.1, -1) ↔ queue.1.waiting = []) := by
  intro ring queue
  obtain ⟨hrep, hanswers⟩ := (ringCall_refines cn).run (fifoInit_represents mem hpos) calls
  refine ⟨?_, hrep.chair, pushFifo_unchanged hrep.holds, popFifo_unchanged hrep.holds⟩
  apply hanswers.imp
  intro r a ⟨hr, huses⟩
  refine ⟨hr, ?_⟩
  intro i hi
  obtain ⟨h0, hlt⟩ := huses i hi
  exact ⟨⟨h0, hlt⟩, by omega⟩

/-- A ring of two places, filled, found full, and emptied round its end. -/
theorem fifo_refines_boundedQueue_two :
    let calls := [.push 7, .push 8, .push 9, .pop, .push 10, .pop, .pop, .pop]
    let ring := Object.run ringCall (fifoInit ⟨5, 5, 5, 5, fun _ => 5⟩ 2) calls
    let queue := (BoundedQueue.object 2).run BoundedQueue.new calls
    List.Forall₂
      (fun r a => r.1 = returned a ∧ ∀ i ∈ r.2, (0 ≤ i ∧ i < ((2 : ℕ) : ℤ)) ∧ i < (tabCells : ℤ))
      ring.2 queue.2 ∧ queue.2 = [.pushed, .pushed, .full, .popped 7, .pushed, .popped 8,
        .popped 10, .empty] :=
  ⟨(fifo_refines_boundedQueue ⟨5, 5, 5, 5, fun _ => 5⟩ (by decide) (by decide)
    [.push 7, .push 8, .push 9, .pop, .push 10, .pop, .pop, .pop]).1, by decide⟩

end SystemyOperacyjne.BarberShop
