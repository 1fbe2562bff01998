import SystemyOperacyjne.Analysis.PixelTexts
import SystemyOperacyjne.Library.Framing

/-!
# The steps of the slaves and the master

What a step of the picture program is, one case a kind of step, and what holds along every run: the
pipe is the records written and not yet entered, a block each, in order; each slave has written
the first of its points, in order; and the table is what the loop over the entered records makes
of it.
-/

set_option autoImplicit false

namespace SystemyOperacyjne.Pixels

open Library

variable {ω : Type} [DecidableEq ω] {c : Setting ω} {s s' : State ω c.R} {o x : ω} {t : Slave}
  {e : Option (Event ω)} {l : List (Option (Event ω))}

/-! ## Steps -/

/-- The slave that has stepped. -/
@[simp] theorem State.setSlave_self : (s.setSlave o t).slave o = t :=
  Function.update_self ..

/-- The others are where they were. -/
theorem State.setSlave_of_ne (h : x ≠ o) : (s.setSlave o t).slave x = s.slave x :=
  Function.update_of_ne h ..

/-- What the master has in its buffer after a `read`. -/
def State.bufRead {R : ℕ} (s : State ω R) : List UInt8 :=
  s.pipe.take bufSize ++ s.buf.drop (s.pipe.take bufSize).length

/-- The steps, a case each. -/
inductive Step (c : Setting ω) (s : State ω c.R) : Option (Event ω) → State ω c.R → Prop
  | openSlave {o : ω} (hpc : (s.slave o).pc = .opening) (reader : s.pc.present = true) :
      Step c s none
        { s.setSlave o { s.slave o with pc := .writing (c.draws o) } with opened := true }
  | endSlave {o : ω} {left : List (ℕ × ℕ)} (hpc : (s.slave o).pc = .writing left)
      (h : left = [] ∨ s.pc.present = false) :
      Step c s none (s.setSlave o { s.slave o with pc := .ended })
  | write {o : ω} {draw : ℕ × ℕ} {left : List (ℕ × ℕ)}
      (hpc : (s.slave o).pc = .writing (draw :: left)) (reader : s.pc.present = true)
      (room : s.pipe.length + bufSize ≤ c.capacity) :
      Step c s (some (.wrote o (c.record draw)))
        { s.setSlave o
            { pc := .writing left, buf := sprintf (s.slave o).buf (c.text draw) } with
          pipe := s.pipe ++ (sprintf (s.slave o).buf (c.text draw)).take bufSize }
  | openMaster (hpc : s.pc = .starting) : Step c s none { s with pc := .opening }
  | sleep (hpc : s.pc = .opening) (hopened : s.opened = true) :
      Step c s none { s with pc := .reading }
  | endOfFile (hpc : s.pc = .reading) (hpipe : s.pipe = [])
      (hslaves : ∀ o, (s.slave o).pc.present = false) :
      Step c s (some .endOfFile) { s with pc := .closing }
  | enter {record : Record} {table : Table c.R} (hpc : s.pc = .reading) (hpipe : s.pipe ≠ [])
      (hparse : parseRecord s.bufRead s.iter = some record)
      (henter : enter c.double s.table record = .ok table) :
      Step c s (some (.entered record))
        { s with
          pipe := s.pipe.drop bufSize
          buf := s.bufRead
          iter := record.iter
          table }
  | fail (hpc : s.pc = .reading) (hpipe : s.pipe ≠ [])
      (h : ∀ record, parseRecord s.bufRead s.iter = some record →
        ∃ f, enter c.double s.table record = .error f) :
      Step c s none { s with pc := .failed }
  | close (hpc : s.pc = .closing) : Step c s none { s with pc := .done }

/-- What a slave does is a step. -/
theorem Step.of_slaveStep (h : slaveStep c s o = some (e, s')) : Step c s e s' := by
  unfold slaveStep at h
  dsimp only at h
  split at h
  · rename_i hpc
    rw [Option.ite_none_right_eq_some] at h
    obtain ⟨reader, h⟩ := h
    cases h
    exact .openSlave hpc reader
  · rename_i hpc
    cases h
    exact .endSlave hpc (.inl rfl)
  · rename_i draw left hpc
    split at h
    · rename_i reader
      rw [Option.ite_none_right_eq_some] at h
      obtain ⟨room, h⟩ := h
      cases h
      exact .write hpc reader room
    · rename_i reader
      cases h
      exact .endSlave hpc (.inr (Bool.eq_false_of_not_eq_true reader))
  · cases h

/-- What the master does with a block is a step. -/
theorem Step.of_readStep (hpc : s.pc = .reading) (hpipe : s.pipe ≠ [])
    (h : readStep c s = (e, s')) : Step c s e s' := by
  unfold readStep at h
  dsimp only at h
  split at h
  · rename_i hparse
    cases h
    apply Step.fail hpc hpipe
    intro record hrecord
    rw [State.bufRead, hparse] at hrecord
    cases hrecord
  · rename_i record hparse
    split at h
    · rename_i table henter
      cases h
      exact .enter hpc hpipe hparse henter
    · rename_i f henter
      cases h
      apply Step.fail hpc hpipe
      intro record' hrecord
      rw [State.bufRead, hparse] at hrecord
      cases hrecord
      exact ⟨f, henter⟩

/-! ## What has been written and entered -/

def Event.output : Event ω → Option Record
  | .wrote _ record => some record
  | _ => none

def Event.outputOf (o : ω) : Event ω → Option Record
  | .wrote x record => if x = o then some record else none
  | _ => none

def Event.entry : Event ω → Option Record
  | .entered record => some record
  | _ => none

/-- The records written to the pipe. -/
def written (l : List (Option (Event ω))) : List Record :=
  l.filterMap fun e => e.bind Event.output

/-- The records that a slave has written. -/
def writtenBy (o : ω) (l : List (Option (Event ω))) : List Record :=
  l.filterMap fun e => e.bind (Event.outputOf o)

/-- The records entered in the table. -/
def entered (l : List (Option (Event ω))) : List Record :=
  l.filterMap fun e => e.bind Event.entry

omit [DecidableEq ω] in
/-- What has been written after one more event. -/
theorem written_concat : written (l ++ [e]) = written l ++ (e.bind Event.output).toList := by
  unfold written
  rw [List.filterMap_append]
  cases h : e.bind Event.output <;> simp [h]

/-- What a slave has written after one more event. -/
theorem writtenBy_concat :
    writtenBy o (l ++ [e]) = writtenBy o l ++ (e.bind (Event.outputOf o)).toList := by
  unfold writtenBy
  rw [List.filterMap_append]
  cases h : e.bind (Event.outputOf o) <;> simp [h]

omit [DecidableEq ω] in
/-- What has been entered after one more event. -/
theorem entered_concat : entered (l ++ [e]) = entered l ++ (e.bind Event.entry).toList := by
  unfold entered
  rw [List.filterMap_append]
  cases h : e.bind Event.entry <;> simp [h]

/-! ## What every step keeps -/

/-- The master has ended. -/
def MasterPc.gone : MasterPc → Bool
  | .done | .failed => true
  | _ => false

/-- `rand()` is sound, and the count of iterations is an `int`. -/
structure Setting.Sound (c : Setting ω) : Prop where
  drawn : ∀ o, ∀ draw ∈ c.draws o, c.Drawn draw
  count : c.K < 2 ^ 31

/-- The points of a slave. -/
def Setting.points (c : Setting ω) (o : ω) : List Record :=
  (c.draws o).map c.record

/-- The block is read as the record, whatever was in `iter`. -/
def Reads (block : List UInt8) (record : Record) : Prop :=
  ∀ iter, parseRecord block iter = some record

/-- What a slave has written where it is. -/
def Sent (c : Setting ω) (gone : Bool) (o : ω) (records : List Record) : SlavePc → Prop
  | .opening => records = []
  | .writing left => ∃ sent, c.draws o = sent ++ left ∧ records = sent.map c.record
  | .ended => records <+: c.points o ∧ (records = c.points o ∨ gone = true)

/-- The table in the beginning. -/
def cleared (R : ℕ) : Table R :=
  Vector.replicate R (Vector.replicate R 0)

/-- **What holds along a run**, of what has happened and the state. -/
structure Kept (c : Setting ω) (l : List (Option (Event ω))) (s : State ω c.R) : Prop where
  slaveBuf : ∀ o, (s.slave o).buf.length = bufSize
  buf : s.buf.length = bufSize
  unopened : s.opened = false → ∀ o, (s.slave o).pc = .opening
  starting : s.pc = .starting → s.opened = false
  sent : ∀ o, Sent c s.pc.gone o (writtenBy o l) (s.slave o).pc
  pending : ∃ pending, Blocks bufSize Reads s.pipe pending ∧ written l = entered l ++ pending
  table : readValues c.double (cleared c.R) (entered l) = .ok s.table
  failed : s.pc = .failed → ∃ record ∈ written l, ¬ InTable c.R (indices c.double c.R record)

omit [DecidableEq ω] in
/-- A master that has gone makes no difference to what has been sent. -/
theorem Sent.gone {gone gone' : Bool} {records : List Record} {pc : SlavePc}
    (h : Sent c gone o records pc) (hgone : gone = true → gone' = true) :
    Sent c gone' o records pc := by
  cases pc with
  | opening => exact h
  | writing left => exact h
  | ended => exact ⟨h.1, h.2.imp id hgone⟩

/-- What is neither a write nor an entry changes nothing of this. -/
theorem Kept.silent (h : Kept c l s) (houtput : e.bind Event.output = none)
    (hentry : e.bind Event.entry = none) : Kept c (l ++ [e]) s := by
  have hwritten : written (l ++ [e]) = written l := by
    rw [written_concat, houtput]
    exact List.append_nil _
  have hentered : entered (l ++ [e]) = entered l := by
    rw [entered_concat, hentry]
    exact List.append_nil _
  have hwrittenBy : ∀ x, writtenBy x (l ++ [e]) = writtenBy x l := by
    intro x
    have hnone : e.bind (Event.outputOf x) = none := by
      cases e with
      | none => rfl
      | some a =>
        cases a with
        | wrote o record => cases houtput
        | _ => rfl
    rw [writtenBy_concat, hnone]
    exact List.append_nil _
  constructor
  · exact h.slaveBuf
  · exact h.buf
  · exact h.unopened
  · exact h.starting
  · intro o
    rw [hwrittenBy]
    exact h.sent o
  · rw [hwritten, hentered]
    exact h.pending
  · rw [hentered]
    exact h.table
  · rw [hwritten]
    exact h.failed

/-- The master goes on, and has not failed. -/
theorem Kept.of_pc (h : Kept c l s) {pc : MasterPc} (hpc : pc ≠ .starting) (hfailed : pc ≠ .failed)
    (hgone : s.pc.gone = true → pc.gone = true) : Kept c l { s with pc } where
  slaveBuf := h.slaveBuf
  buf := h.buf
  unopened := h.unopened
  starting hpc' := absurd hpc' hpc
  sent o := (h.sent o).gone hgone
  pending := h.pending
  table := h.table
  failed hpc' := absurd hpc' hfailed

/-- A slave that is not in `open` has opened the pipe. -/
theorem Kept.opened (h : Kept c l s) (hpc : (s.slave o).pc ≠ .opening) : s.opened = true := by
  cases hopened : s.opened with
  | true => rfl
  | false => exact absurd (h.unopened hopened o) hpc

/-- The buffers of the slaves keep their size. -/
theorem Kept.slaveBuf_setSlave (h : Kept c l s) (ht : t.buf.length = bufSize) :
    ∀ x, ((s.setSlave o t).slave x).buf.length = bufSize := by
  intro x
  by_cases hx : x = o
  · subst hx
    rw [State.setSlave_self]
    exact ht
  · rw [State.setSlave_of_ne hx]
    exact h.slaveBuf x

/-- A slave goes on without a write, and has the pipe open or had it. -/
theorem Kept.of_setSlave (h : Kept c l s) (ht : t.buf.length = bufSize)
    (hstarting : s.pc ≠ .starting) (hsent : Sent c s.pc.gone o (writtenBy o l) t.pc) :
    Kept c l { s.setSlave o t with opened := true } where
  slaveBuf := h.slaveBuf_setSlave ht
  buf := h.buf
  unopened hfalse := by cases hfalse
  starting hpc := absurd hpc hstarting
  sent x := by
    by_cases hx : x = o
    · subst hx
      show Sent c s.pc.gone x (writtenBy x l) ((s.setSlave x t).slave x).pc
      rw [State.setSlave_self]
      exact hsent
    · show Sent c s.pc.gone x (writtenBy x l) ((s.setSlave o t).slave x).pc
      rw [State.setSlave_of_ne hx]
      exact h.sent x
  pending := h.pending
  table := h.table
  failed := h.failed

/-- A slave in the loop writes one more record. -/
theorem Kept.write (h : Kept c l s) (sound : c.Sound) {draw : ℕ × ℕ} {left : List (ℕ × ℕ)}
    (hpc : (s.slave o).pc = .writing (draw :: left)) :
    Kept c (l ++ [some (.wrote o (c.record draw))])
      { s.setSlave o { pc := .writing left, buf := sprintf (s.slave o).buf (c.text draw) } with
        pipe := s.pipe ++ (sprintf (s.slave o).buf (c.text draw)).take bufSize } := by
  have hopened : s.opened = true := by
    apply h.opened (o := o)
    rw [hpc]
    simp
  have hsent := h.sent o
  rw [hpc] at hsent
  obtain ⟨sent, hdraws, hrecords⟩ := hsent
  have hdraw : c.Drawn draw := by
    apply sound.drawn o
    rw [hdraws]
    simp
  have hlength := (parseRecord_block hdraw sound.count (h.slaveBuf o) 0).1
  obtain ⟨pending, hpipe, hwritten⟩ := h.pending
  constructor
  · exact h.slaveBuf_setSlave hlength
  · exact h.buf
  · intro hfalse
    rw [show s.opened = false from hfalse] at hopened
    cases hopened
  · exact h.starting
  · intro x
    rw [writtenBy_concat]
    by_cases hx : x = o
    · subst hx
      show Sent c s.pc.gone x _ ((s.setSlave x _).slave x).pc
      rw [State.setSlave_self]
      refine ⟨sent ++ [draw], ?_, ?_⟩
      · rw [hdraws, List.append_assoc]
        rfl
      · rw [hrecords, List.map_append]
        simp [Event.outputOf]
    · show Sent c s.pc.gone x _ ((s.setSlave o _).slave x).pc
      rw [State.setSlave_of_ne hx]
      have hnone : (some (.wrote o (c.record draw))).bind (Event.outputOf x) = none :=
        if_neg (Ne.symm hx)
      rw [hnone]
      simpa using h.sent x
  · refine ⟨pending ++ [c.record draw], ?_, ?_⟩
    · apply hpipe.push
      · rw [List.length_take, hlength, Nat.min_self]
      · intro iter
        exact (parseRecord_block hdraw sound.count (h.slaveBuf o) iter).2
    · rw [written_concat, entered_concat, hwritten]
      simp [Event.output, Event.entry]
  · rw [entered_concat]
    show readValues c.double (cleared c.R) (entered l ++ []) = .ok s.table
    rw [List.append_nil]
    exact h.table
  · intro hfailed
    obtain ⟨record, hmem, hout⟩ := h.failed hfailed
    refine ⟨record, ?_, hout⟩
    rw [written_concat]
    exact List.mem_append_left _ hmem

/-- The first block of a pipe that is not empty: what the master finds in its buffer is a record
that has been written and not yet entered. -/
theorem Kept.next (h : Kept c l s) (hpipe : s.pipe ≠ []) :
    ∃ record pending, parseRecord s.bufRead s.iter = some record ∧ s.bufRead.length = bufSize ∧
      Blocks bufSize Reads (s.pipe.drop bufSize) pending ∧
      written l = entered l ++ record :: pending := by
  obtain ⟨pending, hblocks, hwritten⟩ := h.pending
  obtain ⟨record, rest, rfl, hlength, hreads, hrest⟩ := hblocks.pop hpipe
  have hbuf : s.bufRead = s.pipe.take bufSize := by
    unfold State.bufRead
    rw [hlength, ← h.buf, List.drop_length, List.append_nil]
  rw [hbuf]
  exact ⟨record, rest, hreads s.iter, hlength, hrest, hwritten⟩

/-- One more record is entered. -/
theorem readValues_concat {F : Double} {R : ℕ} {T T' : Table R} {records : List Record}
    {record : Record} (h : readValues F T records = .ok T') :
    readValues F T (records ++ [record]) = enter F T' record := by
  unfold readValues at h ⊢
  rw [List.foldlM_append, h]
  show (enter F T' record >>= fun t => pure t) = enter F T' record
  exact bind_pure _

/-- The master enters the first record of the pipe. -/
theorem Kept.enter (h : Kept c l s) {record : Record} {table : Table c.R}
    (hpc : s.pc = .reading) (hpipe : s.pipe ≠ [])
    (hparse : parseRecord s.bufRead s.iter = some record)
    (henter : Pixels.enter c.double s.table record = .ok table) :
    Kept c (l ++ [some (.entered record)])
      { s with
        pipe := s.pipe.drop bufSize
        buf := s.bufRead
        iter := record.iter
        table } := by
  obtain ⟨record', pending, hparse', hlength, hrest, hwritten⟩ := h.next hpipe
  rw [hparse] at hparse'
  cases hparse'
  have hwrittenBy : ∀ x, writtenBy x (l ++ [some (.entered record)]) = writtenBy x l := by
    intro x
    rw [writtenBy_concat]
    exact List.append_nil _
  constructor
  · exact h.slaveBuf
  · exact hlength
  · exact h.unopened
  · exact h.starting
  · intro x
    rw [hwrittenBy]
    exact h.sent x
  · refine ⟨pending, hrest, ?_⟩
    rw [written_concat, entered_concat, hwritten]
    simp [Event.output, Event.entry]
  · rw [entered_concat]
    exact (readValues_concat h.table).trans henter
  · intro hfailed
    rw [show s.pc = .failed from hfailed] at hpc
    cases hpc

/-- The store that fails is that of a record without a cell. -/
theorem Kept.fail (h : Kept c l s) (hpipe : s.pipe ≠ [])
    (hfail : ∀ record, parseRecord s.bufRead s.iter = some record →
      ∃ f, Pixels.enter c.double s.table record = .error f) :
    Kept c l { s with pc := .failed } := by
  obtain ⟨record, pending, hparse, -, -, hwritten⟩ := h.next hpipe
  obtain ⟨f, hf⟩ := hfail record hparse
  have hout : ¬ InTable c.R (indices c.double c.R record) := by
    intro hin
    obtain ⟨table, htable⟩ := (exists_enter_iff s.table record).mpr hin
    rw [hf] at htable
    cases htable
  constructor
  · exact h.slaveBuf
  · exact h.buf
  · exact h.unopened
  · intro hpc
    cases hpc
  · intro o
    exact (h.sent o).gone fun _ => rfl
  · exact h.pending
  · exact h.table
  · intro _
    refine ⟨record, ?_, hout⟩
    rw [hwritten]
    simp

/-- **Every step keeps it.** -/
theorem Kept.step (h : Kept c l s) (sound : c.Sound) (step : Step c s e s') :
    Kept c (l ++ [e]) s' := by
  cases step with
  | @openSlave o hpc reader =>
    apply Kept.silent _ rfl rfl
    apply h.of_setSlave (o := o) (t := { s.slave o with pc := .writing (c.draws o) })
      (h.slaveBuf o)
    · intro hstarting
      rw [hstarting] at reader
      cases reader
    · have hsent := h.sent o
      rw [hpc] at hsent
      exact ⟨[], rfl, hsent⟩
  | @endSlave o left hpc hleft =>
    apply Kept.silent _ rfl rfl
    have hopened : s.opened = true := by
      apply h.opened (o := o)
      rw [hpc]
      simp
    have hstarting : s.pc ≠ .starting := by
      intro hstarting
      rw [h.starting hstarting] at hopened
      cases hopened
    have hsent := h.sent o
    rw [hpc] at hsent
    obtain ⟨sent, hdraws, hrecords⟩ := hsent
    have hended : Sent c s.pc.gone o (writtenBy o l) .ended := by
      constructor
      · rw [hrecords, Setting.points, hdraws, List.map_append]
        exact List.prefix_append _ _
      · rcases hleft with rfl | hgone
        · left
          rw [hrecords, Setting.points, hdraws, List.append_nil]
        · right
          revert hgone hstarting
          cases s.pc <;> simp [MasterPc.present, MasterPc.gone]
    have hset := h.of_setSlave (t := { s.slave o with pc := .ended }) (h.slaveBuf o) hstarting
      hended
    rwa [← hopened] at hset
  | write hpc reader room => exact h.write sound hpc
  | openMaster hpc =>
    apply Kept.silent _ rfl rfl
    apply h.of_pc (by simp) (by simp)
    rw [hpc]
    exact id
  | sleep hpc hopened =>
    apply Kept.silent _ rfl rfl
    apply h.of_pc (by simp) (by simp)
    rw [hpc]
    exact id
  | endOfFile hpc hpipe hslaves =>
    apply Kept.silent _ rfl rfl
    apply h.of_pc (by simp) (by simp)
    rw [hpc]
    exact id
  | enter hpc hpipe hparse henter => exact h.enter hpc hpipe hparse henter
  | fail hpc hpipe hfail =>
    apply Kept.silent _ rfl rfl
    exact h.fail hpipe hfail
  | close hpc =>
    apply Kept.silent _ rfl rfl
    apply h.of_pc (by simp) (by simp)
    intro _
    rfl

/-- It holds in the beginning. -/
theorem Kept.init (hinit : Started c s) : Kept c [] s where
  slaveBuf o := (hinit.slave o).2
  buf := hinit.buf
  unopened _ o := (hinit.slave o).1
  starting _ := hinit.opened
  sent o := by
    rw [(hinit.slave o).1]
    rfl
  pending := ⟨[], by rw [hinit.pipe]; exact .nil, rfl⟩
  table := by
    rw [hinit.table]
    rfl
  failed hpc := by
    rw [hinit.pc] at hpc
    cases hpc

/-! ## The program -/

variable [Fintype ω]

/-- What the master does is a step. -/
theorem Step.of_masterStep (h : masterStep c s = some (e, s')) : Step c s e s' := by
  unfold masterStep at h
  split at h
  · rename_i hpc
    cases h
    exact .openMaster hpc
  · rename_i hpc
    rw [Option.ite_none_right_eq_some] at h
    obtain ⟨hopened, h⟩ := h
    cases h
    exact .sleep hpc hopened
  · rename_i hpc
    split at h
    · rename_i hpipe
      rw [Option.ite_none_left_eq_some] at h
      obtain ⟨hslaves, h⟩ := h
      cases h
      apply Step.endOfFile hpc hpipe
      intro o
      exact Bool.eq_false_of_not_eq_true fun ho => hslaves ⟨o, ho⟩
    · rename_i hpipe
      exact .of_readStep hpc hpipe (Option.some.inj h)
  · rename_i hpc
    cases h
    exact .close hpc
  · cases h
  · cases h

/-- **Every step of the program is one of the steps.** -/
theorem Step.of_system (h : (pictureProgram c).system.step s e s') : Step c s e s' := by
  obtain ⟨choice, hnext⟩ := h
  cases choice with
  | slave o => exact .of_slaveStep hnext
  | master => exact .of_masterStep hnext

/-- **It holds along every run.** -/
theorem Kept.run (sound : c.Sound) {s₀ : State ω c.R} (hinit : Started c s₀)
    (run : (pictureProgram c).system.Run s₀ l s) : Kept c l s := by
  apply run.history_induction (I := fun l s => Kept c l s)
  · intro l s e s' h hstep
    exact h.step sound (.of_system hstep)
  · exact .init hinit

end SystemyOperacyjne.Pixels
