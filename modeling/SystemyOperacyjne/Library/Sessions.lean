import Mathlib.Algebra.BigOperators.Fin
import Mathlib.Data.Finset.Card
import SystemyOperacyjne.Library.Transition

/-!
# Update sessions on a shared table

Writers change a table in sessions of several writes, and readers count entries of it one by
one. `Sharing` is what remains of such a program when its protocol is forgotten: where every
reader and writer stands, and the table. Its protocol is two guards: a session begins while
nobody is at the table, and a reader starts while no session is going on.

A `Journal` records the sessions from the accesses of a run: the writes of every session that
is going on, the complete sessions in the order in which they ended, and for every reader the
sessions that were complete when it started. `sharing_serial` says that the table a reader
reads, and the count it ends with, are those of the complete sessions it started after. A
program inherits this by a simulation.
-/

set_option autoImplicit false

namespace SystemyOperacyjne.Library

/-! ## Counting the entries of a table in a loop -/

section Scan

variable {n : ℕ}

/-- The number of entries below `i` that pass. -/
def passing (p : Fin n → Prop) [DecidablePred p] (i : ℕ) : ℕ :=
  (Finset.univ.filter fun k => k.val < i ∧ p k).card

variable (p : Fin n → Prop) [DecidablePred p]

/-- Nobody has passed in the beginning. -/
theorem passing_zero : passing p 0 = 0 := by
  simp [passing]

/-- **One turn of the loop.** -/
theorem passing_succ {i : ℕ} (h : i < n) :
    passing p (i + 1) = if p ⟨i, h⟩ then passing p i + 1 else passing p i := by
  have hne : ∀ k : Fin n, k.val < i + 1 ∧ p k ↔ k.val < i ∧ p k ∨ k = ⟨i, h⟩ ∧ p ⟨i, h⟩ := by
    intro k
    by_cases hk : k = ⟨i, h⟩
    · rw [hk]
      simp
    · have : k.val ≠ i := fun heq => hk (Fin.ext heq)
      simp only [hk, false_and, or_false]
      refine and_congr_left' ?_
      omega
  split
  · next hp =>
    have hsplit : (Finset.univ.filter fun k => k.val < i + 1 ∧ p k) =
        insert ⟨i, h⟩ (Finset.univ.filter fun k => k.val < i ∧ p k) := by
      ext k
      simp only [Finset.mem_insert, Finset.mem_filter, Finset.mem_univ, true_and, hne, hp, and_true]
      exact or_comm
    rw [passing, hsplit, Finset.card_insert_of_notMem (by simp), passing]
  · next hp =>
    rw [passing, passing]
    congr 1
    ext k
    simp only [Finset.mem_filter, Finset.mem_univ, true_and, hne, hp, and_false, or_false]

/-- The loop has been through the whole table. -/
theorem passing_all {i : ℕ} (h : n ≤ i) : passing p i = (Finset.univ.filter p).card := by
  rw [passing]
  congr 1
  ext k
  have := k.isLt
  simp only [Finset.mem_filter, Finset.mem_univ, true_and, and_iff_right_iff_imp]
  omega

end Scan

/-! ## Journals -/

section Journal

variable {R W κ ν : Type*}

/-- What a reader or a writer does that the others can tell. -/
inductive Access (R W κ ν : Type*)
  | opens (w : W) (amount : ℕ)  -- a session of `amount` writes begins
  | turn (w : W) (k : κ) (v : ν)  -- one turn of the loop of writes, also the last, empty one
  | closes (w : W)
  | starts (r : R)

/-- What has been recorded. -/
structure Journal (R W κ ν : Type*) where
  writing : W → List (κ × ν)
  amount : W → ℕ
  sessions : List (List (κ × ν))
  before : R → List (List (κ × ν))

/-- Nothing has been recorded. -/
def Journal.empty : Journal R W κ ν where
  writing _ := []
  amount _ := 0
  sessions := []
  before _ := []

section Record

variable [DecidableEq R] [DecidableEq W]

/-- One access is recorded. -/
def Journal.after (J : Journal R W κ ν) : Access R W κ ν → Journal R W κ ν
  | .opens w amount =>
    { J with
      writing := Function.update J.writing w []
      amount := Function.update J.amount w amount }
  | .turn w k v =>
    if (J.writing w).length < J.amount w then
      { J with writing := Function.update J.writing w (J.writing w ++ [(k, v)]) }
    else J
  | .closes w => { J with sessions := J.sessions ++ [J.writing w] }
  | .starts r => { J with before := Function.update J.before r J.sessions }

/-- The journal of a list of accesses. -/
def journal (accesses : List (Access R W κ ν)) : Journal R W κ ν :=
  accesses.foldl Journal.after .empty

/-- The journal after one more access. -/
theorem journal_concat (accesses : List (Access R W κ ν)) (a : Access R W κ ν) :
    journal (accesses ++ [a]) = (journal accesses).after a := by
  simp [journal]

section Run

variable {α : Type*} {access : α → Option (Access R W κ ν)} {l : List α} {a : α}

/-- One more step that is an access is recorded. -/
theorem journal_filterMap_some {b : Access R W κ ν} (h : access a = some b) :
    journal ((l ++ [a]).filterMap access) = (journal (l.filterMap access)).after b := by
  simp [List.filterMap_append, h, journal_concat]

/-- One more step that is no access is not. -/
theorem journal_filterMap_none (h : access a = none) :
    journal ((l ++ [a]).filterMap access) = journal (l.filterMap access) := by
  simp [List.filterMap_append, h]

end Run

end Record

variable [DecidableEq κ]

/-- The table after a session. -/
def replay (T : κ → ν) (session : List (κ × ν)) : κ → ν :=
  session.foldl (fun T entry => Function.update T entry.1 entry.2) T

/-- The table after several sessions, one after the other. -/
def replayAll (T : κ → ν) (sessions : List (List (κ × ν))) : κ → ν :=
  sessions.foldl replay T

/-- One more write is done last. -/
theorem replay_concat (T : κ → ν) (session : List (κ × ν)) (k : κ) (v : ν) :
    replay T (session ++ [(k, v)]) = Function.update (replay T session) k v := by
  simp [replay]

/-- One more session is done last. -/
theorem replayAll_concat (T : κ → ν) (sessions : List (List (κ × ν))) (session : List (κ × ν)) :
    replayAll T (sessions ++ [session]) = replay (replayAll T sessions) session := by
  simp [replayAll]

end Journal

/-! ## The shared table -/

/-- Where a reader stands: not at the table, admitted, at entry `i` with `count` entries
found so far, or through the table with `count` entries found. -/
inductive ReaderPlace
  | away
  | ready
  | scanning (i count : ℕ)
  | scanned (count : ℕ)

/-- Where a writer stands: outside its session, with `i` of `amount` writes made, or done
with them. -/
inductive WriterPlace
  | away
  | writing (i amount : ℕ)
  | written

/-- The table, and where everybody stands. -/
structure Sharing (R W ν : Type*) (n : ℕ) where
  table : Fin n → ν
  reader : R → ReaderPlace
  writer : W → WriterPlace

variable {R W ν : Type*} {n : ℕ}

/-- One step of a reader that counts the entries of `T` with the property `p`. -/
inductive ReaderPlace.Step (p : ν → Prop) [DecidablePred p] (T : Fin n → ν) :
    ReaderPlace → ReaderPlace → Prop
  | begins : Step p T .ready (.scanning 0 0)
  | looks {i count : ℕ} (h : i < n) :
      Step p T (.scanning i count) (.scanning (i + 1) (if p (T ⟨i, h⟩) then count + 1 else count))
  | ends {i count : ℕ} (h : n ≤ i) : Step p T (.scanning i count) (.scanned count)
  | leaves (x : ReaderPlace) : Step p T x .away
  | stays (x : ReaderPlace) : Step p T x x

variable [DecidableEq R] [DecidableEq W]

/-- One step of a reader or a writer, and the access it makes. -/
inductive Sharing.Step (p : R → ν → Prop) [∀ r, DecidablePred (p r)] :
    Sharing R W ν n → Option (Access R W (Fin n) ν) → Sharing R W ν n → Prop
  | opens {s : Sharing R W ν n} (w : W) (amount : ℕ) (readers : ∀ r, s.reader r = .away)
      (writers : ∀ w, s.writer w = .away) :
      Step p s (some (.opens w amount))
        { s with writer := Function.update s.writer w (.writing 0 amount) }
  | writes {s : Sharing R W ν n} {w : W} {i amount : ℕ} (k : Fin n) (v : ν)
      (h : s.writer w = .writing i amount) (left : i < amount) :
      Step p s (some (.turn w k v))
        { s with
          table := Function.update s.table k v
          writer := Function.update s.writer w (.writing (i + 1) amount) }
  | written {s : Sharing R W ν n} {w : W} {i amount : ℕ} (k : Fin n) (v : ν)
      (h : s.writer w = .writing i amount) (done : ¬ i < amount) :
      Step p s (some (.turn w k v)) { s with writer := Function.update s.writer w .written }
  | closes {s : Sharing R W ν n} {w : W} (h : s.writer w = .written) :
      Step p s (some (.closes w)) { s with writer := Function.update s.writer w .away }
  | starts {s : Sharing R W ν n} (r : R) (writers : ∀ w, s.writer w = .away) :
      Step p s (some (.starts r)) { s with reader := Function.update s.reader r .ready }
  | reads {s : Sharing R W ν n} {r : R} {x : ReaderPlace}
      (h : ReaderPlace.Step (p r) s.table (s.reader r) x) :
      Step p s none { s with reader := Function.update s.reader r x }
  | stays (s : Sharing R W ν n) : Step p s none s

/-- The shared table as a transition system: at first nobody is at the table. -/
def sharing (n : ℕ) (p : R → ν → Prop) [∀ r, DecidablePred (p r)] :
    System (Sharing R W ν n) (Option (Access R W (Fin n) ν)) where
  init s := (∀ r, s.reader r = .away) ∧ ∀ w, s.writer w = .away
  step := Sharing.Step p

/-- What reader `x` has counted is about the table `T`. -/
def ReaderPlace.Counts (p : ν → Prop) [DecidablePred p] (T : Fin n → ν) : ReaderPlace → Prop
  | .away | .ready => True
  | .scanning i count => count = passing (fun k => p (T k)) i
  | .scanned count => count = (Finset.univ.filter fun k => p (T k)).card

/-- The writer has made the writes that are recorded. -/
def WriterPlace.Made (made amount : ℕ) : WriterPlace → Prop
  | .away | .written => True
  | .writing i amount' => i = made ∧ amount' = amount

/-- **The table is serial**: what the complete sessions, and the one that is going on, make
of it; and while a reader is at the table no session is going on or has ended. -/
structure Sharing.Serial (p : R → ν → Prop) [∀ r, DecidablePred (p r)] (T₀ : Fin n → ν)
    (J : Journal R W (Fin n) ν) (s : Sharing R W ν n) : Prop where
  complete : (∀ w, s.writer w = .away) → s.table = replayAll T₀ J.sessions
  partWay : ∀ w, s.writer w ≠ .away → s.table = replay (replayAll T₀ J.sessions) (J.writing w)
  made : ∀ w, (s.writer w).Made (J.writing w).length (J.amount w)
  alone : ∀ w w', s.writer w ≠ .away → s.writer w' ≠ .away → w = w'
  apart : ∀ r w, s.reader r ≠ .away → s.writer w = .away
  current : ∀ r, s.reader r ≠ .away → J.before r = J.sessions
  counts : ∀ r, (s.reader r).Counts (p r) (replayAll T₀ (J.before r))

section Steps

variable {p : R → ν → Prop} [∀ r, DecidablePred (p r)] {T₀ : Fin n → ν}
  {J : Journal R W (Fin n) ν} {s : Sharing R W ν n}

omit [DecidableEq R] [DecidableEq W] in
/-- A reader at the table sees what the sessions before it have made. -/
theorem Sharing.Serial.seen (h : s.Serial p T₀ J) {r : R} (hr : s.reader r ≠ .away) :
    s.table = replayAll T₀ (J.before r) := by
  rw [h.current r hr]
  exact h.complete fun w => h.apart r w hr

/-- What a reader has counted stays true. -/
theorem ReaderPlace.Step.counts {q : ν → Prop} [DecidablePred q] {T T' : Fin n → ν}
    {x y : ReaderPlace} (h : ReaderPlace.Step q T x y) (hx : x.Counts q T')
    (hT : x ≠ .away → T = T') : y.Counts q T' := by
  cases h with
  | begins => simp [ReaderPlace.Counts, passing_zero]
  | @looks i count hlt =>
    have hcount : count = passing (fun k => q (T' k)) i := hx
    rw [hT (by simp), ReaderPlace.Counts, passing_succ _ hlt, ← hcount]
  | ends hle => exact hx.trans (passing_all _ hle)
  | leaves => trivial
  | stays => exact hx

/-- A writer opens a session when nobody else is there. -/
theorem Sharing.Serial.opens (h : s.Serial p T₀ J) {w : W} (amount : ℕ)
    (readers : ∀ r, s.reader r = .away) (writers : ∀ w, s.writer w = .away) :
    Sharing.Serial p T₀ (J.after (.opens w amount))
      { s with writer := Function.update s.writer w (.writing 0 amount) } where
  complete hnone := absurd (hnone w) (by simp)
  partWay w' hw' := by
    have heq : w' = w := by
      by_contra hne
      simp [hne, writers] at hw'
    simpa [heq, Journal.after, replay] using h.complete writers
  made w' := by
    by_cases heq : w' = w
    · simp [heq, Journal.after, WriterPlace.Made]
    · simpa [heq, Journal.after] using h.made w'
  alone w' w'' hw' hw'' := by
    have heq : ∀ x, Function.update s.writer w (.writing 0 amount) x ≠ .away → x = w := by
      intro x hx
      by_contra hne
      simp [hne, writers] at hx
    rw [heq w' hw', heq w'' hw'']
  apart r w' hr := absurd (readers r) hr
  current r hr := absurd (readers r) hr
  counts := h.counts

omit [DecidableEq R] in
/-- The writer inside moves on to `x`. -/
theorem Sharing.Serial.only (h : s.Serial p T₀ J) {w : W} (hw : s.writer w ≠ .away)
    {x : WriterPlace} (hx : x ≠ .away) (w' : W) :
    Function.update s.writer w x w' ≠ .away ↔ w' = w := by
  by_cases heq : w' = w
  · simp [heq, hx]
  · simp only [ne_eq, heq, not_false_eq_true, Function.update_of_ne, iff_false, not_not]
    by_contra hne
    exact heq (h.alone w' w hne hw)

/-- The writer inside writes one entry. -/
theorem Sharing.Serial.writes (h : s.Serial p T₀ J) {w : W} {i amount : ℕ} (k : Fin n) (v : ν)
    (hw : s.writer w = .writing i amount) (left : i < amount) :
    Sharing.Serial p T₀ (J.after (.turn w k v))
      { s with
        table := Function.update s.table k v
        writer := Function.update s.writer w (.writing (i + 1) amount) } := by
  have hin : s.writer w ≠ .away := by simp [hw]
  have honly := h.only hin (x := .writing (i + 1) amount) (by simp)
  obtain ⟨hi, hamount⟩ : i = (J.writing w).length ∧ amount = J.amount w := by
    simpa [hw, WriterPlace.Made] using h.made w
  have hlt : (J.writing w).length < J.amount w := by omega
  constructor
  · intro hnone
    exact absurd (hnone w) (by simp)
  · intro w' hw'
    rw [(honly w').mp hw']
    simp [Journal.after, hlt, replay_concat, h.partWay w hin]
  · intro w'
    by_cases heq : w' = w
    · simp [heq, Journal.after, hlt, WriterPlace.Made, hi, hamount]
    · simpa [heq, Journal.after, hlt] using h.made w'
  · intro w' w'' hw' hw''
    rw [(honly w').mp hw', (honly w'').mp hw'']
  · intro r w' hr
    exact absurd (h.apart r w hr) hin
  · intro r hr
    exact absurd (h.apart r w hr) hin
  · intro r
    simpa [Journal.after, hlt] using h.counts r

/-- The writer inside has made its writes. -/
theorem Sharing.Serial.written (h : s.Serial p T₀ J) {w : W} {i amount : ℕ} (k : Fin n) (v : ν)
    (hw : s.writer w = .writing i amount) (done : ¬ i < amount) :
    Sharing.Serial p T₀ (J.after (.turn w k v))
      { s with writer := Function.update s.writer w .written } := by
  have hin : s.writer w ≠ .away := by simp [hw]
  have honly := h.only hin (x := .written) (by simp)
  obtain ⟨hi, hamount⟩ : i = (J.writing w).length ∧ amount = J.amount w := by
    simpa [hw, WriterPlace.Made] using h.made w
  have hdone : ¬ (J.writing w).length < J.amount w := by omega
  rw [Journal.after, if_neg hdone]
  constructor
  · intro hnone
    exact absurd (hnone w) (by simp)
  · intro w' hw'
    rw [(honly w').mp hw']
    exact h.partWay w hin
  · intro w'
    by_cases heq : w' = w
    · simp [heq, WriterPlace.Made]
    · simpa [heq] using h.made w'
  · intro w' w'' hw' hw''
    rw [(honly w').mp hw', (honly w'').mp hw'']
  · intro r w' hr
    exact absurd (h.apart r w hr) hin
  · exact h.current
  · exact h.counts

/-- A writer that has written all closes its session. -/
theorem Sharing.Serial.closes (h : s.Serial p T₀ J) {w : W} (hw : s.writer w = .written) :
    Sharing.Serial p T₀ (J.after (.closes w))
      { s with writer := Function.update s.writer w .away } := by
  have hin : s.writer w ≠ .away := by simp [hw]
  have hout : ∀ w', Function.update s.writer w .away w' = .away := by
    intro w'
    by_cases heq : w' = w
    · simp [heq]
    · rw [Function.update_of_ne heq]
      by_contra hne
      exact heq (h.alone w' w hne hin)
  constructor
  · intro _
    rw [Journal.after, replayAll_concat]
    exact h.partWay w hin
  · intro w' hw'
    exact absurd (hout w') hw'
  · intro w'
    simp only [hout w', WriterPlace.Made]
  · intro w' w'' hw'
    exact absurd (hout w') hw'
  · intro r w' _
    exact hout w'
  · intro r hr
    exact absurd (h.apart r w hr) hin
  · exact h.counts

/-- A reader starts when no writer is there. -/
theorem Sharing.Serial.starts (h : s.Serial p T₀ J) (r : R) (writers : ∀ w, s.writer w = .away) :
    Sharing.Serial p T₀ (J.after (.starts r))
      { s with reader := Function.update s.reader r .ready } where
  complete := h.complete
  partWay := h.partWay
  made := h.made
  alone := h.alone
  apart _ w _ := writers w
  current r' hr' := by
    by_cases heq : r' = r
    · simp [heq, Journal.after]
    · simp only [heq, ne_eq, not_false_eq_true, Function.update_of_ne] at hr'
      simpa [heq, Journal.after] using h.current r' hr'
  counts r' := by
    by_cases heq : r' = r
    · simp [heq, ReaderPlace.Counts]
    · simpa [heq, Journal.after] using h.counts r'

omit [DecidableEq W] in
/-- A reader reads on. -/
theorem Sharing.Serial.reads (h : s.Serial p T₀ J) {r : R} {x : ReaderPlace}
    (hstep : ReaderPlace.Step (p r) s.table (s.reader r) x) :
    Sharing.Serial p T₀ J { s with reader := Function.update s.reader r x } := by
  -- who is at the table now was there before
  have hback : ∀ r', Function.update s.reader r x r' ≠ .away → s.reader r' ≠ .away := by
    intro r' hr'
    by_cases heq : r' = r
    · rw [heq] at hr' ⊢
      intro haway
      rw [haway] at hstep
      cases hstep <;> simp at hr'
    · rwa [Function.update_of_ne heq] at hr'
  constructor
  · exact h.complete
  · exact h.partWay
  · exact h.made
  · exact h.alone
  · exact fun r' w hr' => h.apart r' w (hback r' hr')
  · exact fun r' hr' => h.current r' (hback r' hr')
  · intro r'
    by_cases heq : r' = r
    · rw [heq]
      simpa using hstep.counts (h.counts r) h.seen
    · simpa [heq] using h.counts r'

/-- **A step keeps the table serial**, one rule for each access. -/
theorem Sharing.Serial.step (h : s.Serial p T₀ J) {o : Option (Access R W (Fin n) ν)}
    {s' : Sharing R W ν n} (hstep : Sharing.Step p s o s') :
    s'.Serial p T₀ ((o.map J.after).getD J) := by
  cases hstep with
  | opens w amount readers writers => exact h.opens amount readers writers
  | writes k v hw left => exact h.writes k v hw left
  | written k v hw done => exact h.written k v hw done
  | closes hw => exact h.closes hw
  | starts r writers => exact h.starts r writers
  | reads hr => exact h.reads hr
  | stays => exact h

/-- **The table is serial along every run.** The induction is on the run. -/
theorem sharing_serial {s₀ : Sharing R W ν n} {l : List (Option (Access R W (Fin n) ν))}
    (hinit : (sharing n p).init s₀) (hrun : (sharing n p).Run s₀ l s) :
    s.Serial p s₀.table (journal (l.filterMap id)) := by
  obtain ⟨readers, writers⟩ := hinit
  apply hrun.history_induction (I := fun l s => s.Serial p s₀.table (journal (l.filterMap id)))
  · intro l s o s' h hstep
    have := h.step hstep
    cases o with
    | none =>
      have hnone : id (none : Option (Access R W (Fin n) ν)) = none := rfl
      rwa [journal_filterMap_none hnone]
    | some a =>
      have hsome : id (some a) = some a := rfl
      rwa [journal_filterMap_some hsome]
  · constructor
    · exact fun _ => rfl
    · exact fun w hw => absurd (writers w) hw
    · intro w
      rw [writers w]
      trivial
    · exact fun w _ hw => absurd (writers w) hw
    · exact fun _ w _ => writers w
    · exact fun r hr => absurd (readers r) hr
    · intro r
      rw [readers r]
      trivial

/-- **A program that simulates the shared table inherits this.** -/
theorem serial_of_simulation {σ α : Type*} {C : System σ α}
    {access : α → Option (Access R W (Fin n) ν)} {I : σ → Prop} {view : σ → Sharing R W ν n}
    (sim : Simulation C (sharing n p) access id fun c t => I c ∧ view c = t) {c₀ c : σ}
    {l : List α} (hinit : C.init c₀) (hrun : C.Run c₀ l c) :
    (view c).Serial p (view c₀).table (journal (l.filterMap access)) := by
  obtain ⟨t₀, ht₀, hR⟩ := sim.init c₀ hinit
  obtain ⟨m, t, hm, hobs, hR'⟩ := sim.run hR hrun
  obtain ⟨-, rfl⟩ := hR
  obtain ⟨-, rfl⟩ := hR'
  rw [← hobs]
  exact sharing_serial ht₀ hm

end Steps

end SystemyOperacyjne.Library
