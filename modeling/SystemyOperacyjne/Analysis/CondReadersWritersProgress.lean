import SystemyOperacyjne.Analysis.CondReadersWritersInvariant

/-!
# No lost wake-up in the condition-variable version

With the mutex free nobody is between a change of a counter and the broadcast that follows
it, so a sleeper's condition still holds (`asleep_waits`). And the program never stands
still: whoever holds the mutex can step, with the mutex free everybody can who is not
asleep, and not everybody is asleep, since a sleeping reader waits for a writer and a
sleeping writer for somebody who is awake.
-/

set_option autoImplicit false

namespace SystemyOperacyjne.CondReadersWriters

open Library

/-- The program points at which a reader has to lock the mutex. -/
def RPc.Locks (pc : RPc) : Prop :=
  pc = .lock ∨ pc = .woken ∨ pc = .lockExit

/-- The program points at which a writer has to lock the mutex. -/
def WPc.Locks (pc : WPc) : Prop :=
  pc = .lock ∨ pc = .woken ∨ pc = .lockExit

/-- A reader is stopped only by sleep and by the mutex. -/
theorem rFunc_enabled (div : ℤ) (m : Shared) (t : RThread) (hawake : t.pc ≠ .asleep)
    (hfree : t.pc.Locks → m.mutex = false) : ∃ o, rFunc div m t = some o := by
  have hlock : t.pc.Locks → ∃ v, m.lock = some v := fun h =>
    ⟨_, Shared.lock_eq_some.mpr ⟨hfree h, rfl⟩⟩
  cases hk : t.pc
  case asleep => exact absurd hk hawake
  case lock | woken | lockExit =>
    obtain ⟨v, hv⟩ := hlock (by simp [RPc.Locks, hk])
    simp [rFunc, hk, hv]
  case scan =>
    simp only [rFunc, hk]
    split <;> simp
  all_goals simp [rFunc, hk]

/-- A writer is stopped only by sleep and by the mutex. -/
theorem wFunc_enabled (rand : Rand) (m : Shared) (t : WThread) (hawake : t.pc ≠ .asleep)
    (hfree : t.pc.Locks → m.mutex = false) : ∃ o, wFunc rand m t = some o := by
  have hlock : t.pc.Locks → ∃ v, m.lock = some v := fun h =>
    ⟨_, Shared.lock_eq_some.mpr ⟨hfree h, rfl⟩⟩
  cases hk : t.pc
  case asleep => exact absurd hk hawake
  case lock | woken | lockExit =>
    obtain ⟨v, hv⟩ := hlock (by simp [WPc.Locks, hk])
    simp [wFunc, hk, hv]
  case change =>
    simp only [wFunc, hk]
    split <;> simp
  all_goals simp [wFunc, hk]

variable {R W : Type} [Fintype R] [Fintype W]

/-- With the mutex free, a sleeper's condition holds. -/
theorem asleep_waits {s : State R W} (hI : Inv s) (hfree : s.mem.mutex = false) :
    (∀ r, (s.reader r).pc = .asleep → s.mem.writersInQueue ≠ 0) ∧
    ∀ w, (s.writer w).pc = .asleep → s.mem.readers ≠ 0 ∨ s.mem.writers ≠ 0 := by
  obtain ⟨hc, hs⟩ := hI
  have hnobody : mutexHolders s.nr s.nw = 0 := by rw [← hc.mutex, hfree]; rfl
  simp only [mutexHolders] at hnobody
  constructor
  · intro r hr
    have hasleep : 0 < s.nr .asleep := by
      have := count_pos (fun r => (s.reader r).pc.phase) r
      rwa [hr] at this
    have hqueued := hs.reader hasleep
    rw [hc.queue]
    omega
  · intro w hw
    have hasleep : 0 < s.nw .asleep := by
      have := count_pos (fun w => (s.writer w).pc.phase) w
      rwa [hw] at this
    have hinside := hs.writer hasleep
    rw [hc.readers, hc.writers]
    omega

/-- **Somebody can go on**: with a thread at all, some thread is awake and does not wait for
the mutex. -/
theorem exists_enabled {s : State R W} (hI : Inv s) (hthread : Nonempty R ∨ Nonempty W) :
    (∃ r, (s.reader r).pc ≠ .asleep ∧ ((s.reader r).pc.Locks → s.mem.mutex = false)) ∨
    ∃ w, (s.writer w).pc ≠ .asleep ∧ ((s.writer w).pc.Locks → s.mem.mutex = false) := by
  by_contra hcon
  rw [not_or] at hcon
  obtain ⟨hr, hw⟩ := hcon
  push Not at hr hw
  obtain ⟨hc, hs⟩ := hI
  -- everybody who is awake is at a lock of the mutex, so nobody holds it
  have hr0 : ∀ k, k ≠ .idle → k ≠ .asleep → k ≠ .woken → k ≠ .reading → s.nr k = 0 := by
    intro k hidle hasleep hwoken hreading
    apply count_eq_zero
    intro r hk
    by_cases hawake : (s.reader r).pc = .asleep
    · exact hasleep (by rw [← hk, hawake]; rfl)
    · rcases (hr r hawake).1 with hpc | hpc | hpc <;> rw [hpc] at hk
      · exact hidle hk.symm
      · exact hwoken hk.symm
      · exact hreading hk.symm
  have hw0 : ∀ k, k ≠ .idle → k ≠ .asleep → k ≠ .woken → k ≠ .changing → s.nw k = 0 := by
    intro k hidle hasleep hwoken hchanging
    apply count_eq_zero
    intro w hk
    by_cases hawake : (s.writer w).pc = .asleep
    · exact hasleep (by rw [← hk, hawake]; rfl)
    · rcases (hw w hawake).1 with hpc | hpc | hpc <;> rw [hpc] at hk
      · exact hidle hk.symm
      · exact hwoken hk.symm
      · exact hchanging hk.symm
  have hfree : s.mem.mutex = false := by
    have := hc.mutex
    simp only [mutexHolders, ne_eq, reduceCtorEq, not_false_eq_true, hr0, hw0, add_zero] at this
    cases hm : s.mem.mutex
    · rfl
    · simp [hm] at this
  -- with the mutex free, everybody is asleep
  have hrasleep : ∀ r, (s.reader r).pc = .asleep := fun r => by
    by_contra hawake
    exact (hr r hawake).2 hfree
  have hwasleep : ∀ w, (s.writer w).pc = .asleep := fun w => by
    by_contra hawake
    exact (hw w hawake).2 hfree
  have hreading : s.nr .reading = 0 := count_eq_zero fun r => by rw [hrasleep r]; decide
  have hwoken : s.nw .woken = 0 := count_eq_zero fun w => by rw [hwasleep w]; decide
  have hchanging : s.nw .changing = 0 := count_eq_zero fun w => by rw [hwasleep w]; decide
  have hnoWriter : s.nw .asleep = 0 := by
    have := hs.writer
    simp only [readingNo, countedNo, ne_eq, reduceCtorEq, not_false_eq_true, hr0, hw0, hreading,
      hchanging] at this
    omega
  rcases hthread with ⟨⟨r⟩⟩ | ⟨⟨w⟩⟩
  · have hasleep : 0 < s.nr .asleep := by
      have := count_pos (fun r => (s.reader r).pc.phase) r
      rwa [hrasleep r] at this
    have := hs.reader hasleep
    simp only [queuedNo, ne_eq, reduceCtorEq, not_false_eq_true, hw0, hwoken, hchanging,
      hnoWriter] at this
    omega
  · have := count_pos (fun w => (s.writer w).pc.phase) w
    rw [hwasleep w] at this
    exact absurd hnoWriter this.ne'

variable [DecidableEq R] [DecidableEq W]

/-- **No lost wake-up**: in a reachable state with the mutex free every sleeping thread's
condition still holds, and in every reachable state of a program with a thread some thread
takes a step that is no spurious wake-up.
SOURCE: cw09/zad1a/main.c:68-131 -/
theorem no_lost_wakeup (div : R → ℤ) {s : State R W} (h : (program div).system.Reachable s) :
    (s.mem.mutex = false →
      (∀ r, (s.reader r).pc = .asleep → s.mem.writersInQueue ≠ 0) ∧
      ∀ w, (s.writer w).pc = .asleep → s.mem.readers ≠ 0 ∨ s.mem.writers ≠ 0) ∧
    (Nonempty R ∨ Nonempty W →
      ∃ a s', (program div).system.step s a s' ∧ ¬ a.Spurious) := by
  have hI := (inv_invariant div).reachable h
  refine ⟨asleep_waits hI, ?_⟩
  intro hthread
  rcases exists_enabled hI hthread with ⟨r, hawake, hfree⟩ | ⟨w, hawake, hfree⟩
  · obtain ⟨o, hstep⟩ := rFunc_enabled (div r) s.mem (s.reader r) hawake hfree
    exact ⟨_, _, ⟨.reader r, Option.map_eq_some_iff.mpr ⟨o, hstep, rfl⟩⟩, id⟩
  · obtain ⟨o, hstep⟩ := wFunc_enabled ⟨0, 0⟩ s.mem (s.writer w) hawake hfree
    exact ⟨_, _, ⟨.writer w ⟨0, 0⟩, Option.map_eq_some_iff.mpr ⟨o, hstep, rfl⟩⟩, id⟩

/-- A writer changes the table while the other writer and the reader sleep: the mutex is
free, and what the two wait for is still so. -/
theorem no_lost_wakeup_while_asleep :
    ∃ s : State (Fin 1) (Fin 2), (program fun _ => 1).system.Reachable s ∧
      (s.reader 0).pc = .asleep ∧ (s.writer 1).pc = .asleep ∧ s.mem.writersInQueue ≠ 0 ∧
      (s.mem.readers ≠ 0 ∨ s.mem.writers ≠ 0) ∧
      ∃ a s', (program fun _ => 1).system.step s a s' ∧ ¬ a.Spurious := by
  have h := Machine.exec_reachable (M := program (W := Fin 2) fun _ => 1)
    (start_startState (Fin 1) (Fin 2))
    (List.replicate 7 (.writer 0 ⟨7, 3⟩) ++ List.replicate 5 (.writer 1 ⟨7, 3⟩) ++
      List.replicate 3 (.reader 0)) (by decide)
  obtain ⟨hwaits, hgoes⟩ := no_lost_wakeup (fun _ => 1) h
  obtain ⟨hreader, hwriter⟩ := hwaits (by decide)
  exact ⟨_, h, by decide, by decide, hreader 0 (by decide), hwriter 1 (by decide),
    hgoes (.inl ⟨0⟩)⟩

end SystemyOperacyjne.CondReadersWriters
