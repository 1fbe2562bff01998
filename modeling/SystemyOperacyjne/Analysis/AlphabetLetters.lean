import Mathlib
import SystemyOperacyjne.Model.AlphabetWalker

/-!
# The characters of the walk

The two tests at the top of a round put `symbol` outside the alphabet so that the step brings it
back in at the other end. They and the step read `up` one after the other, and the step fits what
the tests have done when `up` is what it was for them: with a handler in between it is so when
that ran an even number of times. Away from the ends any direction fits (`letters_iff`).
-/

set_option autoImplicit false

namespace SystemyOperacyjne.AlphabetWalker

open Library

variable {s s' : State} {a : Event} {l : List Event}

/-- `'A'` to `'Z'`. -/
def Letter (symbol : ℤ) : Prop :=
  65 ≤ symbol ∧ symbol ≤ 90

/-- What has happened in a round: the character printed, `up` as it was first read, and the
signals since the first read and since the second. -/
structure Round where
  symbol : ℤ
  up : ℤ
  sinceFirst : ℕ
  sinceSecond : ℕ
  deriving DecidableEq, Repr

def Round.next (r : Round) : Event → Round
  | .print symbol => { r with symbol := symbol }
  | .readFirst up => { r with up := up, sinceFirst := 0 }
  | .readSecond => { r with sinceSecond := 0 }
  | .signal => { r with sinceFirst := r.sinceFirst + 1, sinceSecond := r.sinceSecond + 1 }
  | .readThird | .usleep => r

/-- The round under way. -/
def Round.after (l : List Event) : Round :=
  l.foldl Round.next { symbol := 65, up := 1, sinceFirst := 0, sinceSecond := 0 }

/-- **The step of the round fits its tests**: at `'A'` the second test and the step have read the
same, and at `'Z'` the test that saw the upward direction, or the first one, and the step. -/
def Round.Fits (r : Round) : Prop :=
  (r.symbol = 65 → Even r.sinceSecond) ∧
    (r.symbol = 90 → Even (if r.up = 1 then r.sinceSecond else r.sinceFirst))

/-- Every character printed is a letter, and so is the one that is printed next once the step of
the round has been taken. -/
def Shown (l : List Event) (s : State) : Prop :=
  (∀ symbol, .print symbol ∈ l → Letter symbol) ∧
    (s.pc = .usleep ∨ s.pc = .print → Letter s.symbol)

/-- The steps of all rounds fit. -/
def AllFit (l : List Event) : Prop :=
  ∀ p q, l = p ++ .readThird :: q → (Round.after p).Fits

/-! ## One step -/

/-- What a step is, one case a point of the loop and one for the signal. -/
inductive Step (s : State) : Event → State → Prop
  | print (pc : s.pc = .print) : Step s (.print s.symbol) { s with pc := .testUp }
  | testUp (pc : s.pc = .testUp) : Step s (.readFirst s.up)
      { s with pc := .testDown, symbol := if s.up = 1 ∧ 90 ≤ s.symbol then 64 else s.symbol }
  | testDown (pc : s.pc = .testDown) : Step s .readSecond
      { s with pc := .step, symbol := if s.up = -1 ∧ s.symbol ≤ 65 then 91 else s.symbol }
  | step (pc : s.pc = .step) :
      Step s .readThird { s with pc := .usleep, symbol := s.symbol + s.up }
  | usleep (pc : s.pc = .usleep) : Step s .usleep { s with pc := .print }
  | signal : Step s .signal (doSIGTSTP s)

/-- What the program does is one of the steps. -/
theorem Step.of_system (h : program.system.step s a s') : Step s a s' := by
  obtain ⟨choice, h⟩ := h
  cases choice with
  | main =>
    simp only [program, Option.some.injEq, main] at h
    split at h
    all_goals
      rename_i hpc
      cases h
    · exact .print hpc
    · exact .testUp hpc
    · exact .testDown hpc
    · exact .step hpc
    · exact .usleep hpc
  | signal =>
    cases h
    exact .signal

/-- A direction after some signals. -/
def turned (n : ℕ) (up : ℤ) : ℤ :=
  if Even n then up else -up

/-- One more signal turns it once more. -/
theorem turned_succ (n : ℕ) (up : ℤ) : turned (n + 1) up = -turned n up := by
  unfold turned
  by_cases hn : Even n
  · rw [if_pos hn, if_neg (by rw [Nat.even_add_one, not_not]; exact hn)]
  · rw [if_neg hn, if_pos (Nat.even_add_one.mpr hn), neg_neg]

/-- The two directions. -/
def Direction (up : ℤ) : Prop :=
  up = 1 ∨ up = -1

/-- An even number of signals leaves the direction as it was. -/
theorem Direction.turned_eq_iff {n : ℕ} {up : ℤ} (h : Direction up) :
    turned n up = up ↔ Even n := by
  unfold turned
  by_cases hn : Even n
  · simp [hn]
  · rw [if_neg hn]
    refine iff_of_false ?_ hn
    rcases h with rfl | rfl <;> decide

/-- The handler turns round. -/
theorem doSIGTSTP_up (h : Direction s.up) : (doSIGTSTP s).up = -s.up := by
  unfold doSIGTSTP
  rcases h with h | h
  · simp [h]
  · simp [h]

/-- Where the loop is in a round, if all has fitted so far: what the tests have made of the
character printed, and how the direction has been turned since they read it. -/
def InRound (r : Round) (s : State) : Prop :=
  match s.pc with
  | .print | .usleep => Letter s.symbol
  | .testUp => Letter r.symbol ∧ s.symbol = r.symbol
  | .testDown => Letter r.symbol ∧ Direction r.up ∧ s.up = turned r.sinceFirst r.up ∧
      s.symbol = if r.up = 1 ∧ 90 ≤ r.symbol then 64 else r.symbol
  | .step => Letter r.symbol ∧ Direction r.up ∧ s.up = turned r.sinceFirst r.up ∧
      ∃ second symbol, Direction second ∧ s.up = turned r.sinceSecond second ∧
        symbol = (if r.up = 1 ∧ 90 ≤ r.symbol then 64 else r.symbol) ∧
        s.symbol = if second = -1 ∧ symbol ≤ 65 then 91 else symbol

/-- The tests and the step, when `up` is read as `first`, `second` and `third`. -/
theorem letter_step_iff {x y first second third : ℤ} (hx : Letter x) (hfirst : Direction first)
    (hsecond : Direction second) (hthird : Direction third)
    (hy : y = if first = 1 ∧ 90 ≤ x then 64 else x) :
    Letter ((if second = -1 ∧ y ≤ 65 then 91 else y) + third) ↔
      (x = 65 → third = second) ∧
        (x = 90 → if first = 1 then third = second else third = first) := by
  unfold Letter at *
  subst hy
  rcases hfirst with rfl | rfl
  · rcases hsecond with rfl | rfl <;> rcases hthird with rfl | rfl <;> grind
  · rcases hsecond with rfl | rfl <;> rcases hthird with rfl | rfl <;> grind

/-- **The step leads to a letter exactly when it fits.** -/
theorem InRound.fits_iff {r : Round} (h : InRound r s) (hpc : s.pc = .step) :
    Letter (s.symbol + s.up) ↔ r.Fits := by
  unfold InRound at h
  rw [hpc] at h
  obtain ⟨hletter, hup, hfirst, second, symbol, hsecond, hlate, hsymbol, hs⟩ := h
  have heven₁ : Even r.sinceFirst ↔ s.up = r.up := by
    rw [hfirst, hup.turned_eq_iff]
  have heven₂ : Even r.sinceSecond ↔ s.up = second := by
    rw [hlate, hsecond.turned_eq_iff]
  have hnow : Direction s.up := by
    rw [hlate, turned]
    split
    · exact hsecond
    · rcases hsecond with rfl | rfl
      · exact Or.inr rfl
      · exact Or.inl rfl
  -- the first read, the second and the third
  have hfits : r.Fits ↔ (r.symbol = 65 → s.up = second) ∧
      (r.symbol = 90 → if r.up = 1 then s.up = second else s.up = r.up) := by
    unfold Round.Fits
    rw [heven₂]
    split
    · rw [heven₂]
    · rw [heven₁]
  rw [hfits, hs]
  exact letter_step_iff hletter hup hsecond hnow hsymbol

/-- **A step other than the third read keeps the round.** -/
theorem InRound.next {r : Round} (h : InRound r s) (hdirection : Direction s.up)
    (hstep : Step s a s') (ha : a ≠ .readThird) : InRound (r.next a) s' := by
  obtain ⟨pc, symbol, up⟩ := s
  cases hstep with
  | print hpc =>
    cases hpc
    exact ⟨h, rfl⟩
  | testUp hpc =>
    cases hpc
    obtain ⟨hletter, hsymbol⟩ := h
    simp only at hsymbol
    subst hsymbol
    exact ⟨hletter, hdirection, rfl, rfl⟩
  | testDown hpc =>
    cases hpc
    obtain ⟨hletter, hup, hfirst, hsymbol⟩ := h
    exact ⟨hletter, hup, hfirst, up, symbol, hdirection, rfl, hsymbol, rfl⟩
  | step => exact absurd rfl ha
  | usleep hpc =>
    cases hpc
    exact h
  | signal =>
    have hup := doSIGTSTP_up hdirection
    simp only [doSIGTSTP] at hup
    cases pc with
    | print | usleep | testUp => exact h
    | testDown =>
      obtain ⟨hletter, hfirst, hlate, hsymbol⟩ := h
      refine ⟨hletter, hfirst, ?_, hsymbol⟩
      simp only [doSIGTSTP, Round.next]
      rw [hup, turned_succ]
      exact congrArg Neg.neg hlate
    | step =>
      obtain ⟨hletter, hfirst, hearly, second, symbol', hsecond, hlate, hsymbol, hs⟩ := h
      refine ⟨hletter, hfirst, ?_, second, symbol', hsecond, ?_, hsymbol, hs⟩
      · simp only [doSIGTSTP, Round.next]
        rw [hup, turned_succ]
        exact congrArg Neg.neg hearly
      · simp only [doSIGTSTP, Round.next]
        rw [hup, turned_succ]
        exact congrArg Neg.neg hlate

/-- The direction is always one of the two. -/
theorem Direction.step (h : Direction s.up) (hstep : Step s a s') : Direction s'.up := by
  cases hstep with
  | signal =>
    rw [doSIGTSTP_up h]
    rcases h with h | h
    · exact Or.inr (by rw [h])
    · exact Or.inl (by rw [h, neg_neg])
  | _ => exact h

/-! ## Runs -/

/-- The round after one more event. -/
theorem Round.after_concat (l : List Event) (a : Event) :
    Round.after (l ++ [a]) = (Round.after l).next a := by
  unfold Round.after
  rw [List.foldl_append]
  rfl

/-- The last event either is a third read or adds nothing. -/
theorem allFit_concat : AllFit (l ++ [a]) ↔
    AllFit l ∧ (a = .readThird → (Round.after l).Fits) := by
  constructor
  · intro hall
    constructor
    · intro p q hl
      refine hall p (q ++ [a]) ?_
      rw [hl, List.append_assoc, List.cons_append]
    · rintro rfl
      exact hall l [] rfl
  · rintro ⟨hall, hlast⟩ p q hl
    rcases List.eq_nil_or_concat q with rfl | ⟨q, b, rfl⟩
    · obtain ⟨hp, ha⟩ := List.append_inj' hl rfl
      rw [← hp]
      exact hlast (List.singleton_inj.mp ha)
    · rw [List.concat_eq_append, ← List.cons_append, ← List.append_assoc] at hl
      exact hall p q (List.append_inj' hl rfl).1

/-- What has been shown stays, and what is to be printed next is printed. -/
theorem Shown.of_concat (h : Shown (l ++ [a]) s') (hstep : Step s a s') : Shown l s := by
  refine ⟨fun symbol hmem => h.1 symbol (List.mem_append_left [a] hmem), ?_⟩
  intro hpc
  cases hstep with
  | print hat => exact h.1 _ (List.mem_append_right l (List.mem_singleton_self _))
  | usleep hat => exact h.2 (Or.inr rfl)
  | signal => exact h.2 hpc
  | testUp hat | testDown hat | step hat =>
    rw [hat] at hpc
    rcases hpc with hpc | hpc <;> cases hpc

/-- A good round shows letters. -/
theorem InRound.shown {r : Round} (h : InRound r s)
    (hprinted : ∀ symbol, .print symbol ∈ l → Letter symbol) : Shown l s := by
  refine ⟨hprinted, ?_⟩
  intro hpc
  unfold InRound at h
  rcases hpc with hpc | hpc
  · rw [hpc] at h
    exact h
  · rw [hpc] at h
    exact h

/-- What the runs keep. -/
structure Walk (l : List Event) (s : State) : Prop where
  direction : Direction s.up
  shown : Shown l s ↔ AllFit l
  round : AllFit l → InRound (Round.after l) s

/-- The program starts on its walk. -/
theorem walk_start : Walk [] start := by
  have hround : InRound (Round.after []) start := by
    constructor
    · decide
    · decide
  refine ⟨Or.inl rfl, iff_of_true (hround.shown ?_) ?_, fun _ => hround⟩
  · intro symbol hmem
    cases hmem
  · intro p q hl
    exact absurd hl.symm (by simp)

/-- **Every step keeps it.** -/
theorem Walk.step (h : Walk l s) (hstep : Step s a s') : Walk (l ++ [a]) s' := by
  suffices hboth : (Shown (l ++ [a]) s' ↔ AllFit (l ++ [a])) ∧
      (AllFit (l ++ [a]) → InRound (Round.after (l ++ [a])) s') from
    ⟨h.direction.step hstep, hboth.1, hboth.2⟩
  by_cases hall : AllFit l
  · have hround := h.round hall
    have hshown := h.shown.mpr hall
    by_cases ha : a = .readThird
    · subst ha
      cases hstep with
      | step hpc =>
        have hfits := hround.fits_iff hpc
        have hiff : AllFit (l ++ [.readThird]) ↔ Letter (s.symbol + s.up) := by
          rw [allFit_concat, hfits]
          exact ⟨fun hand => hand.2 rfl, fun hfit => ⟨hall, fun _ => hfit⟩⟩
        constructor
        · rw [hiff]
          constructor
          · intro hnew
            exact hnew.2 (Or.inl rfl)
          · intro hletter
            refine ⟨fun symbol hmem => hshown.1 symbol ?_, fun _ => hletter⟩
            simpa using hmem
        · rw [hiff]
          intro hletter
          rw [Round.after_concat]
          exact hletter
    · have hnext := hround.next h.direction hstep ha
      rw [← Round.after_concat] at hnext
      have hall' : AllFit (l ++ [a]) := allFit_concat.mpr ⟨hall, fun heq => absurd heq ha⟩
      refine ⟨iff_of_true (hnext.shown ?_) hall', fun _ => hnext⟩
      intro symbol hmem
      rcases List.mem_append.mp hmem with hmem | hmem
      · exact hshown.1 symbol hmem
      · rw [List.mem_singleton] at hmem
        subst hmem
        cases hstep with
        | print hpc => exact hshown.2 (Or.inr hpc)
  · have hnot : ¬ AllFit (l ++ [a]) := fun hall' => hall (allFit_concat.mp hall').1
    refine ⟨iff_of_false ?_ hnot, fun hall' => absurd hall' hnot⟩
    intro hshown
    exact hall (h.shown.mp (hshown.of_concat hstep))

/-- **The characters of a walk.** In every run all characters printed, and the one that is to be
printed next, are letters exactly when in every round begun at `'A'` the handler has run an even
number of times between the second read of `up` and the third, and in every round begun at `'Z'`
between the second read and the third if the first saw the upward direction, and between the
first read and the third if not.
SOURCE: cw04/zad1/main.c:15-22, cw04/zad1/main.c:39-57 -/
theorem letters_iff (run : program.system.Run start l s) :
    ((∀ symbol, .print symbol ∈ l → Letter symbol) ∧
        (s.pc = .usleep ∨ s.pc = .print → Letter s.symbol)) ↔
      ∀ p q, l = p ++ .readThird :: q → (Round.after p).Fits :=
  (run.history_induction (I := Walk) (fun _ _ _ _ h hstep => h.step (.of_system hstep))
    walk_start).shown

/-- A round at `'A'` with a signal during `usleep`, and a round back. -/
def turnedRun : List Event × State :=
  (program.exec start
    [.main, .main, .main, .main, .signal, .main, .main, .main, .main, .main, .main, .main]).get
      (by decide +kernel)

/-- The turned run is one of the program. -/
theorem turnedRun_run : program.system.Run start turnedRun.1 turnedRun.2 := by
  unfold turnedRun
  exact Machine.exec_run_get _

/-- A run with a signal between two reads. -/
theorem letters_iff_turned :
    ((∀ symbol, .print symbol ∈ turnedRun.1 → Letter symbol) ∧
        (turnedRun.2.pc = .usleep ∨ turnedRun.2.pc = .print → Letter turnedRun.2.symbol)) ↔
      ∀ p q, turnedRun.1 = p ++ .readThird :: q → (Round.after p).Fits :=
  letters_iff turnedRun_run

/-- A signal between the second read of `up` and the third, at `'A'`. -/
def strayRun : List Event × State :=
  (program.exec start [.main, .main, .main, .signal, .main, .main, .main]).get
    (by decide +kernel)

/-- **The walk leaves the alphabet**: the character before `'A'` is printed. -/
theorem not_letter : program.system.Run start strayRun.1 strayRun.2 ∧
    ¬ ∀ symbol, .print symbol ∈ strayRun.1 → Letter symbol := by
  constructor
  · unfold strayRun
    exact Machine.exec_run_get _
  · intro hall
    have hletter := hall 64 (by decide +kernel)
    exact absurd hletter.1 (by decide)

end SystemyOperacyjne.AlphabetWalker
