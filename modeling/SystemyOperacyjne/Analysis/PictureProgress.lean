import Mathlib.Data.Prod.Lex
import SystemyOperacyjne.Analysis.PictureRuns
import SystemyOperacyjne.Library.Census

/-!
# The picture can be completed

As long as the master has not left its loop, the slaves and the master can go on until the picture
is complete, if every point has a pixel and the pipe has room for one record. Afterwards all of
them can still end, unless the master has closed the pipe while a slave was waiting in `open`.
-/

set_option autoImplicit false

namespace SystemyOperacyjne.Pixels

open Library

variable {ω : Type} [DecidableEq ω] [Fintype ω] {c : Setting ω} {s₀ s s' : State ω c.R} {o : ω}
  {t : Slave} {e : Option (Event ω)} {l : List (Option (Event ω))}

/-! ## What can be done -/

/-- What a slave can do, the program can. -/
theorem step_slave (h : slaveStep c s o = some (e, s')) :
    (pictureProgram c).system.step s e s' :=
  ⟨.slave o, h⟩

/-- What the master can do, the program can. -/
theorem step_master (h : masterStep c s = some (e, s')) :
    (pictureProgram c).system.step s e s' :=
  ⟨.master, h⟩

/-- **Every step can be taken.** -/
theorem Step.system (step : Step c s e s') : (pictureProgram c).system.step s e s' := by
  cases step with
  | @openSlave o hpc reader =>
    apply step_slave (o := o)
    simp [slaveStep, hpc, reader]
  | @endSlave o left hpc h =>
    apply step_slave (o := o)
    cases left with
    | nil => simp [slaveStep, hpc]
    | cons draw left =>
      have reader : s.pc.present = false := by simpa using h
      simp [slaveStep, hpc, reader]
  | @write o draw left hpc reader room =>
    apply step_slave (o := o)
    simp [slaveStep, hpc, reader, room]
  | openMaster hpc =>
    apply step_master
    simp [masterStep, hpc]
  | sleep hpc hopened =>
    apply step_master
    simp [masterStep, hpc, hopened]
  | endOfFile hpc hpipe hslaves =>
    apply step_master
    simp [masterStep, hpc, hpipe, hslaves]
  | enter hpc hpipe hparse henter =>
    apply step_master
    rw [State.bufRead] at hparse
    simp [masterStep, hpc, hpipe, readStep, hparse, henter, State.bufRead, -List.length_take]
  | fail hpc hpipe h =>
    apply step_master
    rw [State.bufRead] at h
    cases hparse : parseRecord (s.pipe.take bufSize ++
        s.buf.drop (s.pipe.take bufSize).length) s.iter with
    | none => simp [masterStep, hpc, hpipe, readStep, hparse, -List.length_take]
    | some record =>
      obtain ⟨f, hf⟩ := h record hparse
      simp [masterStep, hpc, hpipe, readStep, hparse, hf, -List.length_take]
  | close hpc =>
    apply step_master
    simp [masterStep, hpc]

/-! ## What is left to do -/

/-- How many steps the master has before it. -/
def MasterPc.left : MasterPc → ℕ
  | .starting => 4
  | .opening => 3
  | .reading => 2
  | .closing => 1
  | .done | .failed => 0

/-- Whether a slave has the pipe to open. -/
def Slave.waits (t : Slave) : ℕ :=
  match t.pc with
  | .opening => 1
  | _ => 0

/-- What a slave has to write, a record for more than it takes of the pipe. -/
def Slave.left (t : Slave) : ℕ :=
  match t.pc with
  | .writing left => (bufSize + 1) * left.length + 1
  | _ => 0

def State.rank {R : ℕ} (s : State ω R) : ℕ ×ₗ ℕ :=
  toLex (s.pc.left + census Slave.waits s.slave, census Slave.left s.slave + s.pipe.length)

omit [DecidableEq ω] in
/-- The master has less before it. -/
theorem State.rank_master (hslave : s'.slave = s.slave) (h : s'.pc.left < s.pc.left) :
    s'.rank < s.rank := by
  unfold State.rank
  rw [hslave, Prod.Lex.toLex_lt_toLex]
  dsimp only
  omega

/-- One slave has less before it. -/
theorem State.rank_slave (hslave : s'.slave = Function.update s.slave o t) (hpc : s'.pc = s.pc)
    (h : t.waits < (s.slave o).waits ∨ t.waits = (s.slave o).waits ∧
      t.left + s'.pipe.length < (s.slave o).left + s.pipe.length) : s'.rank < s.rank := by
  have hwaits := census_update Slave.waits s.slave o t
  have hleft := census_update Slave.left s.slave o t
  unfold State.rank
  rw [hslave, hpc, Prod.Lex.toLex_lt_toLex]
  dsimp only
  omega

/-- The master is not behind its loop. -/
def MasterPc.before : MasterPc → Bool
  | .starting | .opening | .reading => true
  | _ => false

/-- Every point has a pixel. -/
def Setting.Mapped (c : Setting ω) : Prop :=
  ∀ o, ∀ draw ∈ c.draws o, InTable c.R (indices c.double c.R (c.record draw))

/-- The picture is complete. -/
def State.Complete {R : ℕ} (s : State ω R) : Prop :=
  s.pc = .reading ∧ s.pipe = [] ∧ ∀ o, (s.slave o).pc = .ended

/-- A slave opens the pipe. -/
theorem exists_open (hpc : (s.slave o).pc = .opening) (reader : s.pc.present = true) :
    ∃ e s', Step c s e s' ∧ s'.pc = s.pc ∧ s'.rank < s.rank := by
  refine ⟨_, _, .openSlave hpc reader, rfl, ?_⟩
  refine State.rank_slave rfl rfl (.inl ?_)
  simp [Slave.waits, hpc]

/-- A slave ends. -/
theorem exists_end {left : List (ℕ × ℕ)} (hpc : (s.slave o).pc = .writing left)
    (h : left = [] ∨ s.pc.present = false) :
    ∃ e s', Step c s e s' ∧ s'.pc = s.pc ∧ s'.rank < s.rank := by
  refine ⟨_, _, .endSlave hpc h, rfl, ?_⟩
  refine State.rank_slave rfl rfl (.inr ?_)
  simp [Slave.waits, Slave.left, hpc, State.setSlave]

/-- A slave that has something to write writes it into the empty pipe. -/
theorem exists_write (hcapacity : bufSize ≤ c.capacity) {draw : ℕ × ℕ} {left : List (ℕ × ℕ)}
    (hpc : (s.slave o).pc = .writing (draw :: left)) (reader : s.pc.present = true)
    (hpipe : s.pipe = []) :
    ∃ e s', Step c s e s' ∧ s'.pc = s.pc ∧ s'.rank < s.rank := by
  have hroom : s.pipe.length + bufSize ≤ c.capacity := by
    rw [hpipe]
    simpa using hcapacity
  refine ⟨_, _, .write hpc reader hroom, rfl, ?_⟩
  refine State.rank_slave rfl rfl (.inr ?_)
  simp only [Slave.waits, Slave.left, hpc, List.length_append, List.length_cons, List.length_take]
  refine ⟨trivial, ?_⟩
  rw [Nat.mul_add]
  omega

/-- The master enters a record from a pipe that is not empty. -/
theorem exists_enter_step (h : Kept c l s) (hmapped : c.Mapped) (hpc : s.pc = .reading)
    (hpipe : s.pipe ≠ []) : ∃ e s', Step c s e s' ∧ s'.pc = s.pc ∧ s'.rank < s.rank := by
  obtain ⟨record, pending, hparse, -, -, hwritten⟩ := h.next hpipe
  have hmem : record ∈ written l := by
    rw [hwritten]
    simp
  obtain ⟨o, draw, hdraw, rfl⟩ := h.exists_draw hmem
  obtain ⟨table, htable⟩ := (exists_enter_iff s.table _).mpr (hmapped o draw hdraw)
  refine ⟨_, _, .enter hpc hpipe hparse htable, rfl, ?_⟩
  have hlength := List.length_pos_iff.mpr hpipe
  unfold State.rank
  rw [Prod.Lex.toLex_lt_toLex]
  dsimp only
  rw [List.length_drop]
  have hpos : 0 < bufSize := by decide
  omega

/-- **Before the end of the loop something can be done**, until the picture is complete. -/
theorem exists_progress [Nonempty ω] (hcapacity : bufSize ≤ c.capacity) (hmapped : c.Mapped)
    (h : Kept c l s) (hpc : s.pc.before = true) (hnot : ¬ s.Complete) :
    ∃ e s', Step c s e s' ∧ s'.pc.before = true ∧ s'.rank < s.rank := by
  have hslave : (∃ e s', Step c s e s' ∧ s'.pc = s.pc ∧ s'.rank < s.rank) →
      ∃ e s', Step c s e s' ∧ s'.pc.before = true ∧ s'.rank < s.rank := by
    rintro ⟨e, s', hstep, hsame, hlt⟩
    exact ⟨e, s', hstep, by rw [hsame]; exact hpc, hlt⟩
  cases hmaster : s.pc with
  | starting =>
    refine ⟨_, _, .openMaster hmaster, rfl, State.rank_master rfl ?_⟩
    simp [MasterPc.left, hmaster]
  | opening =>
    cases hopened : s.opened with
    | true =>
      refine ⟨_, _, .sleep hmaster hopened, rfl, State.rank_master rfl ?_⟩
      simp [MasterPc.left, hmaster]
    | false =>
      apply hslave
      obtain ⟨o⟩ := ‹Nonempty ω›
      apply exists_open (h.unopened hopened o)
      rw [hmaster]
      rfl
  | reading =>
    apply hslave
    by_cases hpipe : s.pipe = []
    · have hlive : ∃ o, (s.slave o).pc ≠ .ended := by
        by_contra hended
        exact hnot ⟨hmaster, hpipe, fun o => not_not.mp fun ho => hended ⟨o, ho⟩⟩
      obtain ⟨o, ho⟩ := hlive
      have reader : s.pc.present = true := by
        rw [hmaster]
        rfl
      cases hslavePc : (s.slave o).pc with
      | opening => exact exists_open hslavePc reader
      | writing left =>
        cases left with
        | nil => exact exists_end hslavePc (.inl rfl)
        | cons draw left => exact exists_write hcapacity hslavePc reader hpipe
      | ended => exact absurd hslavePc ho
    · exact exists_enter_step h hmapped hmaster hpipe
  | closing | done | failed =>
    rw [hmaster] at hpc
    cases hpc

/-! ## The end -/

omit [Fintype ω] in
/-- What has been entered when the picture is complete. -/
theorem Kept.complete (h : Kept c l s) (hcomplete : s.Complete) :
    entered l = written l ∧ ∀ o, writtenBy o l = c.points o := by
  obtain ⟨hpc, hpipe, hended⟩ := hcomplete
  have hslaves : ∀ o, (s.slave o).pc.present = false := by
    intro o
    rw [hended o]
    rfl
  refine ⟨(h.endOfFile hpc hpipe hslaves).1, ?_⟩
  intro o
  have hsent := h.sent o
  rw [hended o, hpc] at hsent
  rcases hsent.2 with hall | hgone
  · exact hall
  · cases hgone

/-- With a complete picture the master finds the end of the pipe and closes it. -/
theorem exists_end_run (hcomplete : s.Complete) :
    ∃ s', (pictureProgram c).system.Run s [some .endOfFile, none] s' ∧ s'.pc = .done ∧
      ∀ o, (s'.slave o).pc = .ended := by
  obtain ⟨hpc, hpipe, hended⟩ := hcomplete
  have hslaves : ∀ o, (s.slave o).pc.present = false := by
    intro o
    rw [hended o]
    rfl
  have hend := (Step.endOfFile hpc hpipe hslaves).system
  have hclose := (Step.close (s := { s with pc := .closing }) rfl).system
  exact ⟨_, .cons hend (.single hclose), rfl, hended⟩

/-- Some run completes the picture. -/
theorem exists_complete_run [Nonempty ω] (sound : c.Sound) (hcapacity : bufSize ≤ c.capacity)
    (hmapped : c.Mapped) (h : Kept c l s) (hpc : s.pc.before = true) :
    ∃ m s', (pictureProgram c).system.Run s m s' ∧ s'.Complete := by
  have progress : ∀ s : State ω c.R, (s.pc.before = true ∧ ∃ l, Kept c l s) → ¬ s.Complete →
      ∃ e s', (pictureProgram c).system.step s e s' ∧ True ∧
        (s'.pc.before = true ∧ ∃ l, Kept c l s') ∧ s'.rank < s.rank := by
    rintro s ⟨hbefore, l, hkept⟩ hnot
    obtain ⟨e, s', hstep, hbefore', hlt⟩ :=
      exists_progress hcapacity hmapped hkept hbefore hnot
    exact ⟨e, s', hstep.system, trivial, ⟨hbefore', _, hkept.step sound hstep⟩, hlt⟩
  obtain ⟨m, s', hrun, -, hcomplete, -⟩ := System.drain _ State.rank progress ⟨hpc, l, h⟩
  exact ⟨m, s', hrun, hcomplete⟩

/-- **The picture can be completed**: as long as the master has not left its loop the processes can
go on so that all of them end, and then every point of every slave has been entered once, each
slave's in order.
SOURCE: cw05/zad2/slave.c:46-65, cw05/zad2/master.c:40-65 -/
theorem can_complete [Nonempty ω] (sound : c.Sound) (hcapacity : bufSize ≤ c.capacity)
    (hmapped : c.Mapped) (hinit : Started c s₀) (run : (pictureProgram c).system.Run s₀ l s)
    (hpc : s.pc.before = true) :
    ∃ m s', (pictureProgram c).system.Run s m s' ∧ s'.pc = .done ∧
      (∀ o, (s'.slave o).pc = .ended) ∧ entered (l ++ m) = written (l ++ m) ∧
      ∀ o, writtenBy o (l ++ m) = c.points o := by
  obtain ⟨m, s₁, hrun, hcomplete⟩ :=
    exists_complete_run sound hcapacity hmapped (Kept.run sound hinit run) hpc
  obtain ⟨s', hend, hdone, hended⟩ := exists_end_run hcomplete
  obtain ⟨hentered, hwrittenBy⟩ := (Kept.run sound hinit (run.append hrun)).complete hcomplete
  refine ⟨m ++ [some .endOfFile, none], s', hrun.append hend, hdone, hended, ?_, ?_⟩
  · rw [← List.append_assoc]
    have htail : ∀ l : List (Option (Event ω)),
        entered (l ++ [some .endOfFile, none]) = entered l ∧
          written (l ++ [some .endOfFile, none]) = written l := by
      intro l
      simp [entered, written, Event.entry, Event.output]
    rw [(htail _).1, (htail _).2, hentered]
  · intro o
    rw [← List.append_assoc, ← hwrittenBy o]
    simp [writtenBy, Event.outputOf]

/-- The master is in `open`, and the slaves have filled the pipe. -/
def fullRun : List (Option (Event (Fin 2))) × State (Fin 2) 2 :=
  ((pictureProgram twoSlaves).exec beforePicture
    [.master, .slave 0, .slave 1, .slave 0, .slave 1]).get (by decide +kernel)

/-- It is a run of the program. -/
theorem run_full : (pictureProgram twoSlaves).system.Run beforePicture fullRun.1 fullRun.2 := by
  unfold fullRun
  exact Machine.exec_run_get _

/-- All three points have a pixel. -/
theorem mapped_twoSlaves : twoSlaves.Mapped := by
  unfold Setting.Mapped
  decide +kernel

/-- The picture can be completed with a full pipe as well. -/
theorem can_complete_full : ∃ m s', (pictureProgram twoSlaves).system.Run fullRun.2 m s' ∧
    s'.pc = .done ∧ (∀ o, (s'.slave o).pc = .ended) ∧
    entered (fullRun.1 ++ m) = written (fullRun.1 ++ m) ∧
    ∀ o, writtenBy o (fullRun.1 ++ m) = twoSlaves.points o :=
  can_complete sound_twoSlaves (by decide) mapped_twoSlaves started_beforePicture run_full
    (by decide +kernel)

/-! ## Slaves that come too late -/

/-- The master has closed the pipe, and a slave waits in `open`. -/
def State.TooLate {R : ℕ} (s : State ω R) : Prop :=
  s.pc = .done ∧ ∃ o, (s.slave o).pc = .opening

omit [Fintype ω] in
/-- It waits for ever. -/
theorem Step.tooLate (step : Step c s e s') (h : s.TooLate) : s'.TooLate := by
  obtain ⟨hdone, x, hx⟩ := h
  have hstays : ∀ {o : ω} {t : Slave}, (s.slave o).pc ≠ .opening →
      ((s.setSlave o t).slave x).pc = .opening := by
    intro o t ho
    have hne : x ≠ o := by
      rintro rfl
      exact ho hx
    rw [State.setSlave_of_ne hne]
    exact hx
  cases step with
  | openSlave hpc reader | write hpc reader room =>
    rw [hdone] at reader
    cases reader
  | endSlave hpc hleft =>
    refine ⟨hdone, x, hstays ?_⟩
    rw [hpc]
    simp
  | openMaster hpc | sleep hpc hopened | endOfFile hpc hpipe hslaves | enter hpc hpipe hparse henter
  | fail hpc hpipe hfail | close hpc =>
    rw [hdone] at hpc
    cases hpc

/-- **Behind the loop something can be done**, until all have ended. -/
theorem exists_progress_behind (hpc : s.pc.behind = true) (hlate : ¬ s.TooLate)
    (hnot : ¬ (s.pc = .done ∧ ∀ o, (s.slave o).pc = .ended)) :
    ∃ e s', Step c s e s' ∧ s'.pc.behind = true ∧ ¬ s'.TooLate ∧ s'.rank < s.rank := by
  cases hmaster : s.pc with
  | closing =>
    by_cases hopening : ∃ o, (s.slave o).pc = .opening
    · obtain ⟨o, ho⟩ := hopening
      obtain ⟨e, s', hstep, hsame, hlt⟩ := exists_open ho (by rw [hmaster]; rfl)
      refine ⟨e, s', hstep, by rw [hsame]; exact hpc, ?_, hlt⟩
      rintro ⟨hdone, -⟩
      rw [hsame, hmaster] at hdone
      cases hdone
    · refine ⟨_, _, .close hmaster, rfl, ?_, State.rank_master rfl ?_⟩
      · rintro ⟨-, hlate⟩
        exact hopening hlate
      · simp [MasterPc.left, hmaster]
  | done =>
    have hlive : ∃ o, (s.slave o).pc ≠ .ended := by
      by_contra hended
      exact hnot ⟨hmaster, fun o => not_not.mp fun ho => hended ⟨o, ho⟩⟩
    obtain ⟨o, ho⟩ := hlive
    cases hslave : (s.slave o).pc with
    | opening => exact absurd ⟨hmaster, o, hslave⟩ hlate
    | writing left =>
      have hgone : s.pc.present = false := by
        rw [hmaster]
        rfl
      refine ⟨_, _, .endSlave hslave (.inr hgone), hpc, ?_, State.rank_slave rfl rfl (.inr ?_)⟩
      · rintro ⟨-, x, hx⟩
        apply hlate
        refine ⟨hmaster, x, ?_⟩
        by_cases hne : x = o
        · subst hne
          rw [State.setSlave_self] at hx
          cases hx
        · rwa [State.setSlave_of_ne hne] at hx
      · simp [Slave.waits, Slave.left, hslave, State.setSlave]
    | ended => exact absurd hslave ho
  | starting | opening | reading | failed =>
    rw [hmaster] at hpc
    cases hpc

/-- **When all can end**: unless the master has closed the pipe while a slave waits in `open`.
SOURCE: cw05/zad2/slave.c:46-65, cw05/zad2/master.c:40-65 -/
theorem can_end_iff [Nonempty ω] (sound : c.Sound) (hcapacity : bufSize ≤ c.capacity)
    (hmapped : c.Mapped) (hinit : Started c s₀) (run : (pictureProgram c).system.Run s₀ l s) :
    (∃ m s', (pictureProgram c).system.Run s m s' ∧ s'.pc = .done ∧
      ∀ o, (s'.slave o).pc = .ended) ↔ ¬ s.TooLate := by
  constructor
  · rintro ⟨m, s', hrun, -, hended⟩ hlate
    have hlate' : s'.TooLate := by
      apply hrun.history_induction (I := fun _ s => s.TooLate)
      · intro _ s e s' hs hstep
        exact (Step.of_system hstep).tooLate hs
      · exact hlate
    obtain ⟨-, o, ho⟩ := hlate'
    rw [hended o] at ho
    cases ho
  · intro hlate
    have hkept := Kept.run sound hinit run
    by_cases hbefore : s.pc.before = true
    · obtain ⟨m, s₁, hrun, hcomplete⟩ :=
        exists_complete_run sound hcapacity hmapped hkept hbefore
      obtain ⟨s', hend, hdone, hended⟩ := exists_end_run hcomplete
      exact ⟨_, s', hrun.append hend, hdone, hended⟩
    · have hbehind : s.pc.behind = true := by
        cases hpc : s.pc with
        | starting | opening | reading =>
          rw [hpc] at hbefore
          exact absurd rfl hbefore
        | closing | done => rfl
        | failed =>
          obtain ⟨record, hmem, hout⟩ := hkept.failed hpc
          obtain ⟨o, draw, hdraw, rfl⟩ := hkept.exists_draw hmem
          exact absurd (hmapped o draw hdraw) hout
      have progress : ∀ s : State ω c.R, (s.pc.behind = true ∧ ¬ s.TooLate) →
          ¬ (s.pc = .done ∧ ∀ o, (s.slave o).pc = .ended) →
          ∃ e s', (pictureProgram c).system.step s e s' ∧ True ∧
            (s'.pc.behind = true ∧ ¬ s'.TooLate) ∧ s'.rank < s.rank := by
        rintro s ⟨hbehind, hlate⟩ hnot
        obtain ⟨e, s', hstep, hbehind', hlate', hlt⟩ :=
          exists_progress_behind hbehind hlate hnot
        exact ⟨e, s', hstep.system, trivial, ⟨hbehind', hlate'⟩, hlt⟩
      obtain ⟨m, s', hrun, -, hend, -⟩ := System.drain _ State.rank progress ⟨hbehind, hlate⟩
      exact ⟨m, s', hrun, hend⟩

/-- The first slave has written everything and the master has closed the pipe before the second
one has come to `open`. -/
def lateRun : List (Option (Event (Fin 2))) × State (Fin 2) 2 :=
  ((pictureProgram twoSlaves).exec beforePicture
    [.master, .slave 0, .slave 0, .slave 0, .slave 0, .master, .master, .master, .master,
      .master]).get (by decide +kernel)

/-- It is a run of the program. -/
theorem run_late : (pictureProgram twoSlaves).system.Run beforePicture lateRun.1 lateRun.2 := by
  unfold lateRun
  exact Machine.exec_run_get _

/-- The second slave waits for ever. -/
theorem can_end_iff_late : ¬ ∃ m s', (pictureProgram twoSlaves).system.Run lateRun.2 m s' ∧
    s'.pc = .done ∧ ∀ o, (s'.slave o).pc = .ended := by
  have hlate : lateRun.2.TooLate := ⟨by decide +kernel, 1, by decide +kernel⟩
  intro hend
  exact (can_end_iff sound_twoSlaves (by decide) mapped_twoSlaves started_beforePicture
    run_late).mp hend hlate

end SystemyOperacyjne.Pixels
