import Mathlib.Data.List.Basic
import Mathlib.Data.List.Flatten
import Mathlib.Logic.Function.Basic

/-!
# Messages of fixed length in a stream

Messages of `n` cells are written one after the other into a stream, and the stream is read in
chunks of at most `n` cells, each of which is put at the front of a buffer of `n` cells that
still holds something older. `buffers_prefix_iff` says when the buffers are the messages: when
every chunk is a whole message. A shorter chunk cannot be made up for by a happy remainder of
the buffer, since then there would be more buffers than messages. `Blocks` says what a stream of
whole messages holds for its reader, as it is written at one end and read at the other.
-/

set_option autoImplicit false

namespace SystemyOperacyjne.Library

variable {β : Type*} {n : ℕ}

/-- The cells of the messages, in order. -/
def stream (ms : List (Vector β n)) : List β :=
  ms.flatMap Vector.toList

/-- The buffer after a chunk has been put at its front. -/
def overwrite (chunk : List β) (old : Vector β n) : Vector β n :=
  .ofFn fun i => chunk.getD i (old.get i)

/-- The stream of one message and more. -/
theorem stream_cons (m : Vector β n) (ms : List (Vector β n)) :
    stream (m :: ms) = m.toList ++ stream ms :=
  List.flatMap_cons

/-- Each message has `n` cells. -/
theorem length_stream (ms : List (Vector β n)) : (stream ms).length = ms.length * n := by
  induction ms with
  | nil => simp [stream]
  | cons m ms ih =>
    rw [stream_cons, List.length_append, ih, Vector.length_toList, List.length_cons, Nat.succ_mul,
      Nat.add_comm]

/-- The first messages make the first part of the stream. -/
theorem stream_take (ms : List (Vector β n)) (k : ℕ) :
    stream (ms.take k) = (stream ms).take (k * n) := by
  induction ms generalizing k with
  | nil => simp [stream]
  | cons m ms ih =>
    cases k with
    | zero => simp [stream]
    | succ k =>
      have hwhole : m.toList.take (k * n + n) = m.toList := by
        apply List.take_of_length_le
        rw [Vector.length_toList]
        omega
      rw [List.take_succ_cons, stream_cons, stream_cons, ih, List.take_append,
        Vector.length_toList, Nat.succ_mul, Nat.add_sub_cancel, hwhole]

/-- **Messages can be told apart in the stream.** -/
theorem stream_injective (hn : 0 < n) : Function.Injective (stream (β := β) (n := n)) := by
  intro ms ms' h
  induction ms generalizing ms' with
  | nil =>
    have hlen := congrArg List.length h
    rw [length_stream, length_stream] at hlen
    cases ms' with
    | nil => rfl
    | cons m' ms' =>
      rw [List.length_nil, Nat.zero_mul, List.length_cons, Nat.succ_mul] at hlen
      omega
  | cons m ms ih =>
    cases ms' with
    | nil =>
      have hlen := congrArg List.length h
      rw [length_stream, length_stream, List.length_nil, Nat.zero_mul, List.length_cons,
        Nat.succ_mul] at hlen
      omega
    | cons m' ms' =>
      rw [stream_cons, stream_cons] at h
      obtain ⟨hhead, htail⟩ := List.append_inj h (by simp)
      rw [ih htail, Vector.toList_inj.mp hhead]

/-- A chunk that is a whole message replaces the buffer. -/
theorem overwrite_whole {chunk : List β} (h : chunk.length = n) (old : Vector β n) :
    (overwrite chunk old).toList = chunk := by
  apply List.ext_getElem
  · simp [h]
  · intro i hi hchunk
    simp [overwrite, List.getElem?_eq_getElem hchunk]

/-- The chunks read, with what the buffer held before each of them. -/
abbrev Chunks (β : Type*) (n : ℕ) :=
  List (List β × Vector β n)

namespace Chunks

/-- The cells read. -/
def cells (cs : Chunks β n) : List β :=
  cs.flatMap Prod.fst

/-- What the buffer held after each chunk. -/
def buffers (cs : Chunks β n) : List (Vector β n) :=
  cs.map fun c => overwrite c.1 c.2

/-- Every chunk is a whole message. -/
def Whole (cs : Chunks β n) : Prop :=
  ∀ c ∈ cs, c.1.length = n

/-- The cells of more chunks. -/
theorem cells_append (cs ds : Chunks β n) : cells (cs ++ ds) = cells cs ++ cells ds :=
  List.flatMap_append

/-- Whole messages are read as they were written. -/
theorem Whole.stream_buffers {cs : Chunks β n} (h : cs.Whole) : stream cs.buffers = cs.cells := by
  induction cs with
  | nil => rfl
  | cons c cs ih =>
    show stream (overwrite c.1 c.2 :: buffers cs) = c.1 ++ cells cs
    rw [stream_cons, overwrite_whole (h c List.mem_cons_self)]
    rw [ih fun d hd => h d (List.mem_cons_of_mem c hd)]

/-- Chunks are no longer than messages, so as many cells as these messages have mean that each
chunk is a whole one. -/
theorem whole_of_length_le {cs : Chunks β n} (hle : ∀ c ∈ cs, c.1.length ≤ n)
    (hlen : cs.length * n ≤ cs.cells.length) : cs.Whole := by
  induction cs with
  | nil =>
    intro c hc
    cases hc
  | cons c cs ih =>
    have hc := hle c List.mem_cons_self
    have hrest : ∀ d ∈ cs, d.1.length ≤ n := fun d hd => hle d (List.mem_cons_of_mem c hd)
    have hcells : (cells (c :: cs)).length = c.1.length + (cells cs).length := by
      simp [cells]
    have hbound : (cells cs).length ≤ cs.length * n := by
      unfold cells
      rw [List.length_flatMap]
      clear ih hlen hcells hle
      induction cs with
      | nil => simp
      | cons d ds ihd =>
        have hd := hrest d List.mem_cons_self
        have htail := ihd fun x hx => hrest x (List.mem_cons_of_mem d hx)
        rw [List.map_cons, List.sum_cons, List.length_cons, Nat.succ_mul]
        omega
    rw [hcells, List.length_cons, Nat.succ_mul] at hlen
    intro d hd
    rcases List.mem_cons.mp hd with rfl | hd
    · omega
    · exact ih hrest (by omega) d hd

/-- **Chunks that are whole messages** leave the messages in the buffers, as many as have been
read. -/
theorem Whole.buffers_eq (hn : 0 < n) {cs : Chunks β n} {ms : List (Vector β n)} (h : cs.Whole)
    (hpre : cs.cells <+: stream ms) : cs.buffers = ms.take (cs.cells.length / n) := by
  apply stream_injective hn
  rw [stream_take, h.stream_buffers]
  have hcells : cs.cells.length = cs.length * n := by
    rw [← h.stream_buffers, length_stream]
    simp [buffers]
  rw [hcells, Nat.mul_div_cancel _ hn, ← hcells]
  exact List.prefix_iff_eq_take.mp hpre

/-- **When the buffers are the messages**, once all of them have been read: when every chunk is a
whole message. -/
theorem buffers_prefix_iff (hn : 0 < n) {cs : Chunks β n} {ms : List (Vector β n)}
    (hle : ∀ c ∈ cs, c.1.length ≤ n) (hall : cs.cells = stream ms) :
    cs.buffers <+: ms ↔ cs.Whole := by
  constructor
  · intro h
    apply whole_of_length_le hle
    have hlen := h.length_le
    unfold buffers at hlen
    rw [List.length_map] at hlen
    rw [hall, length_stream]
    exact Nat.mul_le_mul_right n hlen
  · intro h
    rw [h.buffers_eq hn ⟨[], by rw [List.append_nil, hall]⟩]
    exact List.take_prefix _ _

end Chunks

/-! ## Blocks that are read -/

/-- The stream is one block of `n` cells after the other, and each is read as its value. -/
inductive Blocks {α : Type*} (n : ℕ) (reads : List β → α → Prop) : List β → List α → Prop
  | nil : Blocks n reads [] []
  | cons {block rest : List β} {x : α} {xs : List α} (length : block.length = n)
      (head : reads block x) (tail : Blocks n reads rest xs) :
      Blocks n reads (block ++ rest) (x :: xs)

namespace Blocks

variable {α : Type*} {reads : List β → α → Prop} {cells block : List β} {xs : List α} {x : α}

/-- A block is put at the end. -/
theorem push (h : Blocks n reads cells xs) (hlength : block.length = n) (hblock : reads block x) :
    Blocks n reads (cells ++ block) (xs ++ [x]) := by
  induction h with
  | nil =>
    have h : Blocks n reads (block ++ []) [x] := .cons hlength hblock .nil
    rwa [List.append_nil] at h
  | cons length head _ ih =>
    rw [List.append_assoc]
    exact .cons length head ih

/-- **The first block is the first `n` cells**, if there are any at all. -/
theorem pop (h : Blocks n reads cells xs) (hne : cells ≠ []) :
    ∃ y ys, xs = y :: ys ∧ (cells.take n).length = n ∧ reads (cells.take n) y ∧
      Blocks n reads (cells.drop n) ys := by
  cases h with
  | nil => exact absurd rfl hne
  | cons length head tail =>
    subst length
    rw [List.take_left, List.drop_left]
    exact ⟨_, _, rfl, rfl, head, tail⟩

/-- Where nothing is left there is no block. -/
theorem eq_nil (h : Blocks n reads [] xs) (hn : 0 < n) : xs = [] := by
  generalize hcells : ([] : List β) = cells at h
  cases h with
  | nil => rfl
  | cons length head tail =>
    have hlength := congrArg List.length hcells
    rw [List.length_append] at hlength
    simp only [List.length_nil] at hlength
    omega

end Blocks

end SystemyOperacyjne.Library
