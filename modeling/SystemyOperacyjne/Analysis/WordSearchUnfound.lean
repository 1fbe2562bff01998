import SystemyOperacyjne.Analysis.WordSearchStops

/-!
# Version 1 where the word is not found

As long as no thread has met the end of the file nobody is cancelled, and the last read of every
batch that has been taken was one of something. From then on every read is one of nothing: the
threads that still search do so in a batch from before, and a thread that takes another batch
meets the end of the file too. Only one thread at a time does, as it holds the mutex while it
cancels the others; when it releases the mutex it has cancelled all of them.
-/

set_option autoImplicit false

namespace SystemyOperacyjne.WordSearch

open Library

variable {T : ℕ} {c : Setting T} {s s' : State T} {e : Option (Report T)}
  {l : List (Option (Report T))} {k : ℕ}

/-- The word can be found in version 1: `strstr` sees it in a buffer some thread may have read
into in a turn whose last read was one of something. -/
def Setting.FindableInTurn (c : Setting T) : Prop :=
  ∃ k i b, i < c.recordsNo ∧ Holds c i k b ∧
    recordAt c.file (k * c.recordsNo + c.recordsNo - 1) ≠ [] ∧
    strstr (b.overlay c.file (k * c.recordsNo + i)).bytes c.word = true

/-! ## Before the end of the file -/

/-- **Nobody has met the end of the file**, and `k` batches have been taken. -/
structure InTurns (c : Setting T) (k : ℕ) (s : State T) : Prop where
  calm : Calm c k s
  taken : ∀ j, j < k → recordAt c.file (j * c.recordsNo + c.recordsNo - 1) ≠ []
  unlock : ∀ t, (s.thread t).pc = .unlock →
    recordAt c.file (k * c.recordsNo + c.recordsNo - 1) ≠ []
  chars : ∀ t, (s.thread t).pc.critical = true → 0 < (s.thread t).pc.reads c.recordsNo →
    (s.thread t).charsReaded =
      (recordAt c.file (k * c.recordsNo + (s.thread t).pc.reads c.recordsNo - 1)).length

/-- Nobody has met the end of the file in the beginning. -/
theorem inTurns_start : InTurns c 0 (start c) := by
  constructor
  · exact calm_start
  · intro j hj
    exact absurd hj (Nat.not_lt_zero j)
  · intro t h
    cases h
  · intro t h
    cases h

/-- A thread goes on, no batch having been taken. -/
theorem InTurns.goto (h : InTurns c k s) {t : Fin T} {pc : Pc} {m : Option (Fin T)}
    (hcalm : Calm c k { s.goto t pc with mutex := m })
    (hunlock : pc = .unlock → recordAt c.file (k * c.recordsNo + c.recordsNo - 1) ≠ [])
    (hchars : pc.critical = true → pc.reads c.recordsNo = 0 ∨
      (s.thread t).pc.critical = true ∧
        pc.reads c.recordsNo = (s.thread t).pc.reads c.recordsNo) :
    InTurns c k { s.goto t pc with mutex := m } := by
  have hself : ({ s.goto t pc with mutex := m } : State T).thread t =
      { s.thread t with pc := pc } := State.goto_self ..
  have hne : ∀ x, x ≠ t → ({ s.goto t pc with mutex := m } : State T).thread x = s.thread x :=
    fun x hx => State.goto_of_ne hx _
  constructor
  · exact hcalm
  · exact h.taken
  · intro x hx
    by_cases hxt : x = t
    · rw [hxt, hself] at hx
      exact hunlock hx
    · rw [hne x hxt] at hx
      exact h.unlock x hx
  · exact LastRead.goto h.chars hchars

/-- A read keeps it. -/
theorem InTurns.read (h : InTurns c k s) {t : Fin T} {i : ℕ} (hpc : (s.thread t).pc = .read i)
    (more : i < c.recordsNo) :
    InTurns c k ((s.readRecord c.file t i).goto t (.read (i + 1))) := by
  have hcalm := h.calm.read hpc more
  have hread := h.calm.readInto hpc
  generalize (s.readRecord c.file t i).goto t (.read (i + 1)) = s' at hcalm hread ⊢
  have hne := hread.of_ne
  constructor
  · exact hcalm
  · exact h.taken
  · intro x hx
    by_cases hxt : x = t
    · rw [hxt, hread.pc] at hx
      cases hx
    · rw [hne x hxt] at hx
      exact h.unlock x hx
  · exact LastRead.read h.chars hread

/-- **A batch has been taken**, and its last read was one of something. -/
theorem InTurns.release (h : InTurns c k s) {t : Fin T} (hpc : (s.thread t).pc = .unlock) :
    InTurns c (k + 1) { s.goto t (.search 0) with mutex := none } := by
  have hcalm := h.calm.release_search hpc
  have hidle := hcalm.idle rfl
  constructor
  · exact hcalm
  · intro j hj
    by_cases hjk : j = k
    · rw [hjk]
      exact h.unlock t hpc
    · exact h.taken j (by omega)
  · intro x hx
    apply absurd _ (hidle x)
    rw [hx]
    rfl
  · intro x hx
    exact absurd hx (hidle x)

/-- **What has been read in a turn does not show the word**, if it cannot be found. -/
theorem InTurns.miss (h : InTurns c k s) (hnot : ¬ c.FindableInTurn) {t : Fin T}
    (houtside : (s.thread t).pc.critical = false)
    (hreads : (s.thread t).pc.reads c.recordsNo = c.recordsNo) {i : ℕ} (hi : i < c.recordsNo) :
    strstr ((s.thread t).readingBuffer i).bytes c.word = false := by
  obtain ⟨j, b, hb, heq, hj⟩ := h.calm.fresh t i (by rw [hreads]; exact hi)
  rw [if_neg] at hj
  · by_contra hhit
    rw [heq] at hhit
    exact hnot ⟨j, i, b, hi, hb, h.taken j hj, by simpa using hhit⟩
  · intro hmutex
    rw [(h.calm.holder t).mpr hmutex] at houtside
    cases houtside

/-- A word that cannot be found is not about to be reported. -/
theorem InTurns.not_print (h : InTurns c k s) (hnot : ¬ c.FindableInTurn) (t : Fin T) (i : ℕ) :
    (s.thread t).pc ≠ .print i := by
  intro hpc
  have hi := h.calm.pcs t
  rw [hpc] at hi
  have hmiss := h.miss hnot (t := t) (by rw [hpc]; rfl) (by rw [hpc]; rfl) hi
  rw [h.calm.hit t i hpc] at hmiss
  cases hmiss

/-! ## Behind the end of the file -/

/-- What a thread may be doing once all reads are of nothing. -/
def Setting.DrainedThread (c : Setting T) (th : Thread) : Prop :=
  match th.pc with
  | .lock | .cancelEof _ | .unlockEof | .loopEnd true | .returned | .cancelled => True
  | .read i => i = 0 ∨ th.charsReaded = 0
  | .testEof => th.charsReaded = 0
  | .pause | .search _ =>
    ∀ i, i < c.recordsNo → strstr (th.readingBuffer i).bytes c.word = false
  | .unlock | .print _ | .cancel _ | .loopEnd false => False

/-- The thread is at the end of the file and holds the mutex. -/
def Pc.AtEof : Pc → Prop
  | .cancelEof _ | .unlockEof => True
  | _ => False

/-- The number of threads that the thread has been through there. -/
def Pc.askedEof (T : ℕ) : Pc → ℕ
  | .cancelEof j => j
  | .unlockEof => T
  | _ => 0

/-- **The file has been read**: a thread that nobody has cancelled goes through the others, or
all that have not ended are cancelled. -/
structure Drained (c : Setting T) (s : State T) : Prop where
  offset : c.file.length ≤ s.offset
  threads : ∀ t, c.DrainedThread (s.thread t)
  holder : ∀ t, (s.thread t).pc.critical = true → s.mutex = some t
  asked : ∀ f x, x ≠ f → x.val < (s.thread f).pc.askedEof T → (s.thread x).cancelRequested = true
  leader : (∃ r, (s.thread r).cancelRequested = false ∧ (s.thread r).pc.AtEof) ∨
    ∀ t, (s.thread t).pc.ended = true ∨ (s.thread t).cancelRequested = true

/-- A thread at the end of the file holds the mutex. -/
theorem Pc.AtEof.critical {pc : Pc} (h : pc.AtEof) : pc.critical = true := by
  cases pc with
  | cancelEof | unlockEof => rfl
  | _ => exact h.elim

/-- **A thread meets the end of the file**: everything has been read. -/
theorem InTurns.drained (h : InTurns c k s) (hnot : ¬ c.FindableInTurn) (hpos : 0 < c.recordsNo)
    {t : Fin T} (hpc : (s.thread t).pc = .testEof) (hzero : (s.thread t).charsReaded = 0) :
    Drained c (s.goto t (.cancelEof 0)) := by
  have hcritical : (s.thread t).pc.critical = true := by rw [hpc]; rfl
  have hreads : (s.thread t).pc.reads c.recordsNo = c.recordsNo := by rw [hpc]; rfl
  have hother : ∀ x, x ≠ t → (s.thread x).pc.critical = false := by
    intro x hx
    by_contra hin
    exact h.calm.other hcritical hx ((h.calm.holder x).mp (by simpa using hin))
  constructor
  · have hchars := LastRead.at_test h.chars hpos hpc
    rw [hzero] at hchars
    have hnil : (recordAt c.file (k * c.recordsNo + c.recordsNo - 1)).length = 0 := by
      exact_mod_cast hchars.symm
    unfold recordAt at hnil
    rw [List.length_take, List.length_drop] at hnil
    have hB := BUFFSIZE_pos
    have hend : c.file.length ≤ (k * c.recordsNo + c.recordsNo - 1) * BUFFSIZE := by omega
    have hle : (k * c.recordsNo + c.recordsNo - 1) * BUFFSIZE ≤
        (k * c.recordsNo + c.recordsNo) * BUFFSIZE := Nat.mul_le_mul_right _ (Nat.sub_le _ 1)
    have hoffset := h.calm.offset
    rw [State.progress_critical h.calm hcritical, hreads] at hoffset
    rw [State.goto_offset, hoffset]
    omega
  · intro x
    by_cases hx : x = t
    · rw [hx, State.goto_self]
      exact trivial
    · rw [State.goto_of_ne hx]
      have hout := hother x hx
      have hpcs := h.calm.pcs x
      have hmiss := fun hall i hi => h.miss hnot (t := x) hout hall (i := i) hi
      unfold Setting.DrainedThread
      cases hpcx : (s.thread x).pc with
      | lock => exact trivial
      | pause | search i =>
        intro j hj
        exact hmiss (by rw [hpcx]; rfl) j hj
      | print i => exact absurd hpcx (h.not_print hnot x i)
      | loopEnd keepGoing =>
        cases keepGoing with
        | true => exact trivial
        | false =>
          rw [hpcx] at hpcs
          exact hpcs.elim
      | read | testEof | unlock =>
        rw [hpcx] at hout
        cases hout
      | _ =>
        rw [hpcx] at hpcs
        exact hpcs.elim
  · intro x hx
    rw [State.goto_mutex]
    by_cases hxt : x = t
    · rw [hxt]
      exact (h.calm.holder t).mp hcritical
    · rw [State.goto_of_ne hxt] at hx
      exact (h.calm.holder x).mp hx
  · intro f x hxf hlt
    by_cases hf : f = t
    · rw [hf, State.goto_self] at hlt
      exact absurd hlt (Nat.not_lt_zero _)
    · rw [State.goto_of_ne hf] at hlt
      have hout := hother f hf
      cases hpcf : (s.thread f).pc with
      | cancelEof | unlockEof =>
        rw [hpcf] at hout
        cases hout
      | _ =>
        rw [hpcf] at hlt
        exact absurd hlt (Nat.not_lt_zero _)
  · left
    refine ⟨t, ?_, ?_⟩
    · rw [State.goto_cancelRequested]
      exact h.calm.live t
    · rw [State.goto_self]
      exact trivial

/-- A thread goes on outside its turn. -/
theorem InTurns.outside (h : InTurns c k s) {t : Fin T} {pc : Pc}
    (hcalm : Calm c k (s.goto t pc)) (hcritical : pc.critical = false) :
    InTurns c k (s.goto t pc) := by
  apply h.goto hcalm
  · intro hunlock
    rw [hunlock] at hcritical
    cases hcritical
  · intro hin
    rw [hcritical] at hin
    cases hin

/-- A thread that does not meet the end of the file keeps it. -/
theorem InTurns.move (h : InTurns c k s) (hv : c.version = .one) (hpos : 0 < c.recordsNo)
    {t : Fin T} {pc : Pc} (move : Goto c s t pc) (hne : pc ≠ .cancelEof 0) :
    InTurns c k (s.goto t pc) := by
  have hcalm := h.calm.move (by rw [hv]; decide) move hne
  have hpcs := h.calm.pcs t
  cases move with
  | dieReading _ _ version => rw [hv] at version; cases version
  | @readAll i hpc all =>
    rw [hpc] at hpcs
    have hi : i = c.recordsNo := Nat.le_antisymm hpcs all
    rw [if_pos hv] at hcalm ⊢
    apply h.goto hcalm
    · intro hunlock
      cases hunlock
    · intro _
      rw [hpc, hi]
      exact .inr ⟨rfl, rfl⟩
  | eof => exact absurd rfl hne
  | notEof hpc hsome =>
    apply h.goto hcalm
    · intro _ hnil
      have hchars := LastRead.at_test h.chars hpos hpc
      rw [hnil] at hchars
      exact hsome hchars
    · intro _
      rw [hpc]
      exact .inr ⟨rfl, rfl⟩
  | diePausing _ requested =>
    rw [h.calm.live t] at requested
    cases requested
  | paused | found | missed | searched | again => exact h.outside hcalm rfl
  | @finish keepGoing hpc stop =>
    rw [hpc] at hpcs
    have hkeep := stop.resolve_left (by rw [hv]; decide)
    subst hkeep
    exact hpcs.elim
  | die may =>
    have hreq := requested_of_mayDie may
    rw [h.calm.live t] at hreq
    cases hreq
  | eofCancelled hpc | cancelledAll hpc =>
    rw [hpc] at hpcs
    exact hpcs.elim

/-- **Until a thread meets the end of the file** all threads are in their turns. -/
theorem InTurns.step (h : InTurns c k s) (hv : c.version = .one) (hpos : 0 < c.recordsNo)
    (hnot : ¬ c.FindableInTurn) (step : Step c s e s') :
    (∃ k', InTurns c k' s') ∨ Drained c s' := by
  cases step with
  | @acquire t hpc hfree =>
    refine .inl ⟨k, h.goto (h.calm.acquire hpc hfree) ?_ ?_⟩
    · intro hunlock
      cases hunlock
    · intro _
      exact .inl rfl
  | read hpc more => exact .inl ⟨k, h.read hpc more⟩
  | @goto t pc move =>
    by_cases heof : pc = .cancelEof 0
    · obtain ⟨hpc, hzero⟩ := move.eof_inv heof
      rw [heof]
      exact .inr (h.drained hnot hpos hpc hzero)
    · exact .inl ⟨k, h.move hv hpos move heof⟩
  | release hpc =>
    rw [if_neg (by rw [hv]; decide)]
    exact .inl ⟨k + 1, h.release hpc⟩
  | print hpc => exact absurd hpc (h.not_print hnot _ _)
  | @releaseEof t hpc | @cancelEof t j hpc | @cancel t j hpc =>
    have hpcs := h.calm.pcs t
    rw [hpc] at hpcs
    exact hpcs.elim

/-- A thread goes on by itself behind the end of the file. -/
theorem Drained.goto (h : Drained c s) {t : Fin T} {pc : Pc}
    (hself : c.DrainedThread { s.thread t with pc := pc })
    (hlive : (s.thread t).pc.ended = false)
    (hcritical : pc.critical = true → (s.thread t).pc.critical = true)
    (hasked : pc.askedEof T ≤ (s.thread t).pc.askedEof T)
    (hleader : (s.thread t).cancelRequested = false → (s.thread t).pc.AtEof → pc.AtEof) :
    Drained c (s.goto t pc) := by
  constructor
  · exact h.offset
  · intro x
    by_cases hx : x = t
    · rw [hx, State.goto_self]
      exact hself
    · rw [State.goto_of_ne hx]
      exact h.threads x
  · intro x hx
    rw [State.goto_mutex]
    by_cases hxt : x = t
    · rw [hxt, State.goto_self] at hx
      rw [hxt]
      exact h.holder t (hcritical hx)
    · rw [State.goto_of_ne hxt] at hx
      exact h.holder x hx
  · intro f x hxf hlt
    rw [State.goto_cancelRequested]
    apply h.asked f x hxf
    by_cases hf : f = t
    · rw [hf, State.goto_self] at hlt
      rw [hf]
      exact Nat.lt_of_lt_of_le hlt hasked
    · rw [State.goto_of_ne hf] at hlt
      exact hlt
  · rcases h.leader with ⟨r, hreq, heof⟩ | hall
    · left
      refine ⟨r, ?_, ?_⟩
      · rw [State.goto_cancelRequested]
        exact hreq
      · by_cases hr : r = t
        · rw [hr] at hreq heof ⊢
          rw [State.goto_self]
          exact hleader hreq heof
        · rw [State.goto_of_ne hr]
          exact heof
    · right
      intro x
      rw [State.goto_cancelRequested]
      by_cases hx : x = t
      · rw [hx]
        right
        apply (hall t).resolve_left
        rw [hlive]
        decide
      · rw [State.goto_of_ne hx]
        exact hall x

/-- A thread that goes elsewhere keeps it. -/
theorem Drained.move (h : Drained c s) (hv : c.version = .one) (hpos : 0 < c.recordsNo)
    {t : Fin T} {pc : Pc} (move : Goto c s t pc) : Drained c (s.goto t pc) := by
  have hself := h.threads t
  unfold Setting.DrainedThread at hself
  cases move with
  | dieReading _ _ version => rw [hv] at version; cases version
  | readAll hpc all =>
    rw [if_pos hv]
    rw [hpc] at hself
    apply h.goto
    · exact hself.resolve_left (by omega)
    · rw [hpc]
      rfl
    · intro _
      rw [hpc]
      rfl
    · exact Nat.zero_le _
    · rw [hpc]
      exact fun _ => False.elim
  | eof hpc zero =>
    apply h.goto
    · exact trivial
    · rw [hpc]
      rfl
    · intro _
      rw [hpc]
      rfl
    · exact Nat.zero_le _
    · exact fun _ _ => trivial
  | notEof hpc nonzero =>
    rw [hpc] at hself
    exact absurd hself nonzero
  | eofCancelled hpc all =>
    apply h.goto
    · exact trivial
    · rw [hpc]
      rfl
    · intro _
      rw [hpc]
      rfl
    · rw [hpc]
      exact all
    · exact fun _ _ => trivial
  | diePausing hpc requested =>
    apply h.goto
    · exact trivial
    · rw [hpc]
      rfl
    · intro hdead
      cases hdead
    · exact Nat.zero_le _
    · rw [hpc]
      exact fun _ => False.elim
  | paused hpc | missed hpc =>
    rw [hpc] at hself
    apply h.goto
    · exact hself
    · rw [hpc]
      rfl
    · intro hsearch
      cases hsearch
    · exact Nat.zero_le _
    · rw [hpc]
      exact fun _ => False.elim
  | found hpc more hit =>
    rw [hpc] at hself
    rw [hself _ more] at hit
    cases hit
  | searched hpc | again hpc =>
    apply h.goto
    · exact trivial
    · rw [hpc]
      rfl
    · intro hlock
      cases hlock
    · exact Nat.zero_le _
    · rw [hpc]
      exact fun _ => False.elim
  | cancelledAll hpc =>
    rw [hpc] at hself
    exact hself.elim
  | @finish keepGoing hpc stop =>
    have hkeep := stop.resolve_left (by rw [hv]; decide)
    rw [hpc, hkeep] at hself
    exact hself.elim
  | die may =>
    apply h.goto
    · exact trivial
    · exact not_ended_of_mayDie may
    · intro hdead
      cases hdead
    · exact Nat.zero_le _
    · intro hreq
      rw [requested_of_mayDie may] at hreq
      cases hreq

/-- A thread takes the mutex: nobody was at the end of the file, so all are cancelled. -/
theorem Drained.acquire (h : Drained c s) {t : Fin T} (hpc : (s.thread t).pc = .lock)
    (hfree : s.mutex = none) : Drained c { s.goto t (.read 0) with mutex := some t } := by
  have hself : ({ s.goto t (.read 0) with mutex := some t } : State T).thread t =
      { s.thread t with pc := .read 0 } := State.goto_self ..
  have hne : ∀ x, x ≠ t →
      ({ s.goto t (.read 0) with mutex := some t } : State T).thread x = s.thread x :=
    fun x hx => State.goto_of_ne hx _
  have hidle : ∀ x, (s.thread x).pc.critical ≠ true := by
    intro x hx
    have hmutex := h.holder x hx
    rw [hfree] at hmutex
    cases hmutex
  constructor
  · exact h.offset
  · intro x
    by_cases hx : x = t
    · rw [hx, hself]
      exact .inl rfl
    · rw [hne x hx]
      exact h.threads x
  · intro x hx
    by_cases hxt : x = t
    · rw [hxt]
    · rw [hne x hxt] at hx
      exact absurd hx (hidle x)
  · intro f x hxf hlt
    have hreq : (s.thread x).cancelRequested = true := by
      by_cases hf : f = t
      · rw [hf, hself] at hlt
        exact absurd hlt (Nat.not_lt_zero _)
      · rw [hne f hf] at hlt
        exact h.asked f x hxf hlt
    by_cases hxt : x = t
    · rw [hxt, hself]
      rw [hxt] at hreq
      exact hreq
    · rw [hne x hxt]
      exact hreq
  · right
    have hall : ∀ x, (s.thread x).pc.ended = true ∨ (s.thread x).cancelRequested = true := by
      rcases h.leader with ⟨r, -, heof⟩ | hall
      · exact absurd heof.critical (hidle r)
      · exact hall
    intro x
    by_cases hx : x = t
    · rw [hx, hself]
      right
      apply (hall t).resolve_left
      rw [hpc]
      decide
    · rw [hne x hx]
      exact hall x

/-- A read is one of nothing. -/
theorem Drained.read (h : Drained c s) {t : Fin T} {i : ℕ} (hpc : (s.thread t).pc = .read i) :
    Drained c ((s.readRecord c.file t i).goto t (.read (i + 1))) := by
  obtain ⟨n, th, hn, hth, hchars, hoffset, hthread⟩ :=
    exists_readRecord c.file s t i (.read (i + 1))
  have hflag : ∀ x, (((s.readRecord c.file t i).goto t (.read (i + 1))).thread x).cancelRequested =
      (s.thread x).cancelRequested := by
    intro x
    rw [State.goto_cancelRequested, State.readRecord_cancelRequested]
  have hmutex : ((s.readRecord c.file t i).goto t (.read (i + 1))).mutex = s.mutex := rfl
  generalize (s.readRecord c.file t i).goto t (.read (i + 1)) = s' at hoffset hthread hflag hmutex ⊢
  have hself : s'.thread t = th := by rw [hthread, State.setThread_self]
  have hne : ∀ x, x ≠ t → s'.thread x = s.thread x := by
    intro x hx
    rw [hthread, State.setThread_of_ne hx]
  have hend := h.offset
  have hzero : n = 0 := by omega
  constructor
  · omega
  · intro x
    by_cases hx : x = t
    · rw [hx, hself]
      unfold Setting.DrainedThread
      rw [hth]
      right
      rw [hchars, hzero]
      rfl
    · rw [hne x hx]
      exact h.threads x
  · intro x hx
    rw [hmutex]
    apply h.holder
    by_cases hxt : x = t
    · rw [hxt, hpc]
      rfl
    · rw [hne x hxt] at hx
      exact hx
  · intro f x hxf hlt
    rw [hflag]
    apply h.asked f x hxf
    by_cases hf : f = t
    · rw [hf, hself, hth] at hlt
      exact absurd hlt (Nat.not_lt_zero _)
    · rw [hne f hf] at hlt
      exact hlt
  · rcases h.leader with ⟨r, hreq, heof⟩ | hall
    · left
      refine ⟨r, ?_, ?_⟩
      · rw [hflag]
        exact hreq
      · by_cases hr : r = t
        · rw [hr, hpc] at heof
          exact heof.elim
        · rw [hne r hr]
          exact heof
    · right
      intro x
      rw [hflag]
      by_cases hx : x = t
      · right
        apply (hall x).resolve_left
        rw [hx, hpc]
        exact Bool.false_ne_true
      · rw [hne x hx]
        exact hall x

/-- **A thread at the end of the file has cancelled all others**, and leaves. -/
theorem Drained.releaseEof (h : Drained c s) {t : Fin T} (hpc : (s.thread t).pc = .unlockEof) :
    Drained c { s.goto t .returned with mutex := none } := by
  have hself : ({ s.goto t .returned with mutex := none } : State T).thread t =
      { s.thread t with pc := .returned } := State.goto_self ..
  have hne : ∀ x, x ≠ t →
      ({ s.goto t .returned with mutex := none } : State T).thread x = s.thread x :=
    fun x hx => State.goto_of_ne hx _
  have hmutex := h.holder t (by rw [hpc]; rfl)
  have hreq : ∀ x, x ≠ t → (s.thread x).cancelRequested = true := by
    intro x hx
    apply h.asked t x hx
    rw [hpc]
    exact x.isLt
  have hidle : ∀ x, x ≠ t → (s.thread x).pc.critical ≠ true := by
    intro x hx hin
    rw [h.holder x hin] at hmutex
    cases hmutex
    exact hx rfl
  constructor
  · exact h.offset
  · intro x
    by_cases hx : x = t
    · rw [hx, hself]
      exact trivial
    · rw [hne x hx]
      exact h.threads x
  · intro x hx
    by_cases hxt : x = t
    · rw [hxt, hself] at hx
      cases hx
    · rw [hne x hxt] at hx
      exact absurd hx (hidle x hxt)
  · intro f x hxf hlt
    by_cases hf : f = t
    · rw [hne x (fun heq => hxf (heq.trans hf.symm))]
      exact hreq x (fun heq => hxf (heq.trans hf.symm))
    · rw [hne f hf] at hlt
      have hold := h.asked f x hxf hlt
      by_cases hxt : x = t
      · rw [hxt, hself]
        rw [hxt] at hold
        exact hold
      · rw [hne x hxt]
        exact hold
  · right
    intro x
    by_cases hx : x = t
    · rw [hx, hself]
      exact .inl rfl
    · rw [hne x hx]
      exact .inr (hreq x hx)

/-- **A thread at the end of the file cancels another.** -/
theorem Drained.cancelEof (h : Drained c s) {t : Fin T} {j : ℕ}
    (hpc : (s.thread t).pc = .cancelEof j) (hj : j < T) :
    Drained c ((s.cancelOther t ⟨j, hj⟩).goto t (.cancelEof (j + 1))) := by
  have hmutex := h.holder t (by rw [hpc]; rfl)
  have hflag : ∀ x, (((s.cancelOther t ⟨j, hj⟩).goto t (.cancelEof (j + 1))).thread
      x).cancelRequested = if x = ⟨j, hj⟩ ∧ ⟨j, hj⟩ ≠ t then true
        else (s.thread x).cancelRequested := by
    intro x
    rw [State.goto_cancelRequested, State.cancelOther_thread]
    split
    · rfl
    · rfl
  have hkept : ∀ x, (s.thread x).cancelRequested = true →
      (((s.cancelOther t ⟨j, hj⟩).goto t (.cancelEof (j + 1))).thread x).cancelRequested =
        true := by
    intro x hx
    rw [hflag, hx, ite_self]
  constructor
  · rw [State.goto_offset, State.cancelOther_offset]
    exact h.offset
  · intro x
    by_cases hx : x = t
    · rw [hx, State.goto_self]
      exact trivial
    · rw [State.goto_of_ne hx, State.cancelOther_thread]
      have hold := h.threads x
      split
      · exact hold
      · exact hold
  · intro x hx
    rw [State.goto_mutex, State.cancelOther_mutex]
    by_cases hxt : x = t
    · rw [hxt]
      exact hmutex
    · rw [State.goto_of_ne hxt, State.cancelOther_pc] at hx
      exact h.holder x hx
  · intro f x hxf hlt
    by_cases hf : f = t
    · rw [hf, State.goto_self] at hlt
      by_cases hxj : x.val = j
      · rw [hflag, if_pos]
        have hx : x = ⟨j, hj⟩ := Fin.ext hxj
        rw [← hx]
        exact ⟨rfl, fun heq => hxf (heq.trans hf.symm)⟩
      · apply hkept
        apply h.asked f x hxf
        rw [hf, hpc]
        have hle : x.val < j + 1 := hlt
        show x.val < j
        omega
    · rw [State.goto_of_ne hf, State.cancelOther_pc] at hlt
      exact hkept x (h.asked f x hxf hlt)
  · rcases h.leader with ⟨r, hreq, heof⟩ | hall
    · -- the one at the end of the file is the one that holds the mutex
      have hr : r = t := by
        have hmutex' := h.holder r heof.critical
        rw [hmutex] at hmutex'
        cases hmutex'
        rfl
      left
      refine ⟨t, ?_, ?_⟩
      · rw [hflag, if_neg]
        · rw [← hr]
          exact hreq
        · intro heq
          exact heq.2 heq.1.symm
      · rw [State.goto_self]
        exact trivial
    · right
      intro x
      by_cases hx : x = t
      · right
        apply hkept
        apply (hall x).resolve_left
        rw [hx, hpc]
        exact Bool.false_ne_true
      · rcases hall x with hended | hreq
        · left
          rw [State.goto_of_ne hx, State.cancelOther_pc]
          exact hended
        · exact .inr (hkept x hreq)

/-- So does every step. -/
theorem Drained.step (h : Drained c s) (hv : c.version = .one) (hpos : 0 < c.recordsNo)
    (step : Step c s e s') : Drained c s' := by
  cases step with
  | acquire hpc hfree => exact h.acquire hpc hfree
  | read hpc => exact h.read hpc
  | goto move => exact h.move hv hpos move
  | releaseEof hpc => exact h.releaseEof hpc
  | cancelEof hpc hj => exact h.cancelEof hpc hj
  | @release t hpc | @cancel t j hpc | @print t i hpc =>
    have hself := h.threads t
    unfold Setting.DrainedThread at hself
    rw [hpc] at hself
    exact hself.elim

/-! ## Where it stops -/

/-- **One of the two holds in every run.** -/
theorem inTurns_or_drained (hv : c.version = .one) (hpos : 0 < c.recordsNo)
    (hnot : ¬ c.FindableInTurn) (run : (program c).system.Run (start c) l s) :
    (∃ k, InTurns c k s) ∨ Drained c s := by
  apply run.history_induction (I := fun _ s => (∃ k, InTurns c k s) ∨ Drained c s)
  · intro _ s e s' h hstep
    rcases h with ⟨k, h⟩ | h
    · exact h.step hv hpos hnot (.of_system hstep)
    · exact .inr (h.step hv hpos (.of_system hstep))
  · exact .inl ⟨0, inTurns_start⟩

/-- **Where the word is not found version 1 stops** only where all threads have ended. -/
theorem ended_of_stuck_unfound (hv : c.version = .one) (hpos : 0 < c.recordsNo)
    (hnot : ¬ c.FindableInTurn) (run : (program c).system.Run (start c) l s)
    (hstuck : (program c).system.Stuck s) : s.ended := by
  rcases inTurns_or_drained hv hpos hnot run with ⟨k, h⟩ | h
  · intro x
    by_contra hx
    obtain ⟨-, -, d, -, hdead⟩ := dead_of_stuck (by rw [hv]; decide) run hstuck hx
    -- nobody has died
    have hpcs := h.calm.pcs d
    rw [hdead] at hpcs
    exact hpcs
  · rcases h.leader with ⟨r, -, heof⟩ | hall
    · rcases waits_of_stuck hstuck r with hended | ⟨hlock, -⟩
      · cases hpc : (s.thread r).pc with
        | returned | cancelled => rw [hpc] at heof; exact heof.elim
        | _ => rw [hpc] at hended; cases hended
      · rw [hlock] at heof
        exact heof.elim
    · intro x
      rcases hall x with hended | hreq
      · exact hended
      · exact ended_of_stuck hv hstuck hreq

end SystemyOperacyjne.WordSearch
