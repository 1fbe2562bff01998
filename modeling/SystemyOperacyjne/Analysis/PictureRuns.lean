import Mathlib.Data.List.Infix
import SystemyOperacyjne.Analysis.PictureSteps

/-!
# The picture that the master gets

Whatever the order of the steps: the master enters what the slaves have written, in that order and
each record once; a cell of the table shows the last record for it; and when the master finds the
end of the pipe, nothing is on its way, and every slave that had opened the pipe has had all its
points entered. The master fails only over a point close to the upper bounds.
-/

set_option autoImplicit false

namespace SystemyOperacyjne.Pixels

open Library

/-! ## A cell of the table -/

variable {F : Double} {R : ℕ} {T T' : Table R} {record : Record} {i j : ℕ}

variable {ω : Type} [DecidableEq ω] [Fintype ω] {c : Setting ω} {s₀ s s' : State ω c.R} {o : ω}
  {e : Option (Event ω)} {l : List (Option (Event ω))}

/-- Behind the loop of `readValues`. -/
def MasterPc.behind : MasterPc → Bool
  | .closing | .done => true
  | _ => false

omit [Fintype ω] in
/-- Behind its loop the master enters nothing. -/
theorem Step.behind (step : Step c s e s') (h : s.pc.behind = true) :
    e.bind Event.entry = none ∧ s'.pc.behind = true := by
  cases step with
  | openMaster hpc | sleep hpc hopened | endOfFile hpc | enter hpc | fail hpc =>
    rw [hpc] at h
    cases h
  | close hpc => exact ⟨rfl, rfl⟩
  | _ => exact ⟨rfl, h⟩

omit [Fintype ω] in
/-- **At the end of the pipe nothing is on its way**: every record written has been entered, and
every slave has written all of its points, or has not opened the pipe. -/
theorem Kept.endOfFile (h : Kept c l s) (hpc : s.pc = .reading) (hpipe : s.pipe = [])
    (hslaves : ∀ o, (s.slave o).pc.present = false) :
    entered l = written l ∧ ∀ o, writtenBy o l = c.points o ∨ writtenBy o l = [] := by
  constructor
  · obtain ⟨pending, hblocks, hwritten⟩ := h.pending
    rw [hpipe] at hblocks
    rw [hwritten, hblocks.eq_nil (by decide), List.append_nil]
  · intro o
    have hsent := h.sent o
    have hslave := hslaves o
    rw [hpc] at hsent
    revert hsent hslave
    cases (s.slave o).pc with
    | opening =>
      intro hsent _
      exact .inr hsent
    | writing left =>
      intro _ hslave
      cases hslave
    | ended =>
      intro hsent _
      rcases hsent.2 with hall | hgone
      · exact .inl hall
      · cases hgone

/-! ## Whose records they are -/

omit [Fintype ω] in
/-- Every record written has been written by a slave. -/
theorem exists_writtenBy {record : Record} (h : record ∈ written l) :
    ∃ o, record ∈ writtenBy o l := by
  obtain ⟨e, he, houtput⟩ := List.mem_filterMap.mp h
  cases e with
  | none => cases houtput
  | some a =>
    cases a with
    | wrote o record' =>
      cases houtput
      refine ⟨o, List.mem_filterMap.mpr ⟨_, he, ?_⟩⟩
      exact if_pos rfl
    | _ => cases houtput

omit [Fintype ω] in
/-- **Each slave writes its points in order.** -/
theorem Kept.writtenBy_prefix (h : Kept c l s) (o : ω) : writtenBy o l <+: c.points o := by
  have hsent := h.sent o
  revert hsent
  cases (s.slave o).pc with
  | opening =>
    intro hsent
    rw [show writtenBy o l = [] from hsent]
    exact List.nil_prefix
  | writing left =>
    rintro ⟨sent, hdraws, hrecords⟩
    rw [hrecords, Setting.points, hdraws, List.map_append]
    exact List.prefix_append _ _
  | ended =>
    intro hsent
    exact hsent.1

omit [Fintype ω] in
/-- What is written are points of the slaves. -/
theorem Kept.exists_draw (h : Kept c l s) {record : Record} (hmem : record ∈ written l) :
    ∃ o, ∃ draw ∈ c.draws o, c.record draw = record := by
  obtain ⟨o, ho⟩ := exists_writtenBy hmem
  exact ⟨o, List.mem_map.mp ((h.writtenBy_prefix o).subset ho)⟩

/-- Before anything has happened. -/
def beforePicture : State (Fin 2) 2 where
  pipe := []
  opened := false
  slave _ := { pc := .opening, buf := List.replicate 50 0 }
  pc := .starting
  buf := List.replicate 50 0
  iter := 0
  table := cleared 2

/-- No result of `rand()` is too large. -/
theorem sound_twoSlaves : twoSlaves.Sound where
  drawn := by decide
  count := by decide

/-- It is the state the program starts in. -/
theorem started_beforePicture : Started twoSlaves beforePicture where
  pipe := rfl
  opened := rfl
  slave _ := ⟨rfl, rfl⟩
  pc := rfl
  buf := rfl
  table := rfl

end SystemyOperacyjne.Pixels
