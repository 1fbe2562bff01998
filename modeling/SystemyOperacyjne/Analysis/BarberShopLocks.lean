import Mathlib.Tactic.Linarith
import SystemyOperacyjne.Library.Census
import SystemyOperacyjne.Model.BarberShop

/-!
# Who holds what in a barber shop

The semaphores of both versions against the program points. `CHECK` and `FIFO` are locks
(`Locks`): one client at a time is between its wait on `CHECK` and its raising, and it or the
barber holds `FIFO`. The value of `BARBER` says whether the barber is awake (`Alarm`): a client
that holds `FIFO` and reads `0` there finds the barber asleep, and with the semaphores it then
raises it gets the barber as far as the wait on `FIFO`, and no further.
-/

set_option autoImplicit false

namespace SystemyOperacyjne.BarberShop

open Library Semaphore

/-- The phases of a client's visit. -/
inductive CPhase
  | outside | entering | looking | raising | shaking | sitting | pushing | done | leaving
  deriving DecidableEq, Repr

/-- The phase of a client's program point. -/
def ClientPc.phase : ClientPc → CPhase
  | .test | .waitCheck | .suspend | .left => .outside
  | .waitFifo => .entering
  | .getValue => .looking
  | .postBarber => .raising
  | .handshake => .shaking
  | .writeChair => .sitting
  | .push _ => .pushing
  | .postFifo _ => .done
  | .postCheck _ => .leaving

/-- The phases of the barber that the semaphores `BARBER` and `SLOWER` tell apart. -/
inductive Stage
  | home | raising | slowing | coming | busy | dozing
  deriving DecidableEq, Repr

/-- The phase of the barber's program point. -/
def BarberPc.stage : BarberPc → Stage
  | .waitBarber => .home
  | .postBarber => .raising
  | .postSlower => .slowing
  | .waitFifoChair => .coming
  | .readChair | .postFifoChair _ | .cutChair _ | .waitFifo | .pop _ | .postFifo _ | .cut _
  | .sleep => .busy
  | .postFifoSleep => .dozing

/-- The permits of `FIFO` the barber holds. -/
def BarberPc.holdsFifo : BarberPc → ℕ
  | .readChair | .postFifoChair _ | .pop _ | .postFifo _ | .sleep | .postFifoSleep => 1
  | .waitBarber | .postBarber | .postSlower | .waitFifoChair | .cutChair _ | .waitFifo
  | .cut _ => 0

section Numbers

variable (n : CPhase → ℕ)

/-- The number of clients that hold `FIFO`. -/
def fifoHolders : ℕ :=
  n .looking + n .raising + n .shaking + n .sitting + n .pushing + n .done

/-- The number of clients that hold `CHECK`. -/
def checkHolders : ℕ :=
  n .entering + fifoHolders n + n .leaving

/-- **The two locks** `CHECK` and `FIFO` have one holder or one permit each; `held` is what
the barber holds of `FIFO`. -/
structure Locks (check fifo held : ℕ) : Prop where
  check : check + checkHolders n = 1
  fifo : fifo + fifoHolders n + held = 1

/-- **The alarm of `cw07/zad1`**: what the value of `BARBER` says. -/
structure SysVAlarm (barber slower : ℕ) (st : Stage) (awake : Bool) : Prop where
  barber : barber + (if st = .home ∨ st = .dozing then 0 else 1) =
    n .shaking + 2 * n .sitting + 2 * awake.toNat
  slower : slower = 0
  stage : st ≠ .raising ∧ st ≠ .slowing
  asleep : awake = false → st = .home ∨ st = .dozing ∨ st = .coming ∧ 0 < n .shaking + n .sitting
  awakened : awake = true → st ≠ .dozing
  visit : 0 < n .raising + n .shaking + n .sitting →
    awake = false ∧ (st = .home ∨ st = .coming ∧ n .raising = 0)
  pushing : 0 < n .pushing → awake = true

/-- **The alarm of `cw07/zad2`**: what the values of `BARBER` and `SLOWER` say. -/
structure PosixAlarm (barber slower : ℕ) (st : Stage) (awake : Bool) : Prop where
  barber : barber + (if st = .raising then 1 else 0) = n .shaking + n .sitting + awake.toNat
  slower : slower = if st = .coming then n .shaking else 0
  stage : st = .raising ∨ st = .slowing → 0 < n .shaking
  sitting : 0 < n .sitting → st = .coming
  asleep : awake = false → st ≠ .busy ∧ (st = .coming → 0 < n .shaking + n .sitting)
  awakened : awake = true → st = .coming ∨ st = .busy
  visit : 0 < n .raising + n .shaking + n .sitting → awake = false ∧ st ≠ .dozing
  pushing : 0 < n .pushing → awake = true

/-- The alarm of either version. -/
def Alarm : Version → ℕ → ℕ → Stage → Bool → Prop
  | .sysV => SysVAlarm n
  | .posix => PosixAlarm n

end Numbers

/-- Whether the barber is awake after an event. -/
def awakeAfter (awake : Bool) : Option Event → Bool
  | some (.wake _) => true
  | some .sleep => false
  | some (.sit _) | some (.refuse _) | some (.cut _) | none => awake

section Steps

variable {v : Version} {m m' : Shared} {b b' : BarberPc} {n n' : CPhase → ℕ}
  {e : Option Event} {awake : Bool}

/-- A step of the barber keeps the locks. -/
theorem locks_barber (hl : Locks n m.semCheck m.semFifo b.holdsFifo)
    (h : startWork v m b = some (m', b', e)) :
    Locks n m'.semCheck m'.semFifo b'.holdsFifo := by
  obtain ⟨check, fifo⟩ := hl
  cases b <;> simp only [startWork] at h
  case waitBarber | sleep =>
    obtain ⟨x, -, h⟩ := Option.map_eq_some_iff.mp h
    cases h
    cases v <;> exact ⟨check, fifo⟩
  case waitFifoChair | waitFifo =>
    obtain ⟨x, hx, h⟩ := Option.map_eq_some_iff.mp h
    cases h
    rw [wait_eq_some] at hx
    refine ⟨check, ?_⟩
    simp only [BarberPc.holdsFifo] at fifo ⊢
    omega
  case pop p =>
    split at h
    · cases h
      exact ⟨check, fifo⟩
    · cases h
      split <;> exact ⟨check, fifo⟩
  case postFifoChair | postFifo | postFifoSleep =>
    cases h
    refine ⟨check, ?_⟩
    simp only [BarberPc.holdsFifo, post] at fifo ⊢
    omega
  all_goals
    cases h
    exact ⟨check, fifo⟩

/-- The barber of `cw07/zad1` on its way to the wait on `FIFO`, and to sleep. -/
theorem sysV_alarm_barber (ha : SysVAlarm n m.semBarber m.semSlower b.stage awake)
    (hl : Locks n m.semCheck m.semFifo b.holdsFifo)
    (h : startWork .sysV m b = some (m', b', e))
    (hb : b.stage ≠ .busy ∨ b = .sleep) :
    SysVAlarm n m'.semBarber m'.semSlower b'.stage (awakeAfter awake e) := by
  obtain ⟨barber, slower, stage, asleep, awakened, visit, pushing⟩ := ha
  have hfifo := hl.fifo
  simp only [fifoHolders] at hfifo
  cases b <;> simp [BarberPc.stage] at hb <;> simp only [startWork] at h
  all_goals
    simp only [BarberPc.stage, BarberPc.holdsFifo]
      at barber stage asleep awakened visit hfifo
  case' waitBarber | sleep | waitFifoChair =>
    obtain ⟨x, hx, h⟩ := Option.map_eq_some_iff.mp h
    rw [wait_eq_some] at hx
  all_goals
    cases h
    simp only [BarberPc.stage, awakeAfter]
    cases awake <;> constructor <;> grind

/-- The barber of `cw07/zad2` on its way to the wait on `FIFO`, and to sleep. -/
theorem posix_alarm_barber (ha : PosixAlarm n m.semBarber m.semSlower b.stage awake)
    (hl : Locks n m.semCheck m.semFifo b.holdsFifo)
    (h : startWork .posix m b = some (m', b', e))
    (hb : b.stage ≠ .busy ∨ b = .sleep) :
    PosixAlarm n m'.semBarber m'.semSlower b'.stage (awakeAfter awake e) := by
  obtain ⟨barber, slower, stage, sitting, asleep, awakened, visit, pushing⟩ := ha
  have hfifo := hl.fifo
  simp only [fifoHolders] at hfifo
  cases b <;> simp [BarberPc.stage] at hb <;> simp only [startWork] at h
  all_goals
    simp only [BarberPc.stage, BarberPc.holdsFifo]
      at barber slower stage sitting asleep awakened visit hfifo
  case' waitBarber | sleep | waitFifoChair =>
    obtain ⟨x, hx, h⟩ := Option.map_eq_some_iff.mp h
    rw [wait_eq_some] at hx
  all_goals
    cases h
    simp only [BarberPc.stage, awakeAfter, post]
    cases awake <;> constructor <;> grind

/-- A step of the barber keeps the alarm; at work it does not touch `BARBER` and `SLOWER`. -/
theorem alarm_barber (ha : Alarm n v m.semBarber m.semSlower b.stage awake)
    (hl : Locks n m.semCheck m.semFifo b.holdsFifo) (h : startWork v m b = some (m', b', e)) :
    Alarm n v m'.semBarber m'.semSlower b'.stage (awakeAfter awake e) := by
  by_cases hb : b.stage ≠ .busy ∨ b = .sleep
  · cases v
    · exact sysV_alarm_barber ha hl h hb
    · exact posix_alarm_barber ha hl h hb
  · cases b <;> simp [BarberPc.stage] at hb <;> simp only [startWork] at h
    case waitFifo =>
      obtain ⟨x, -, h⟩ := Option.map_eq_some_iff.mp h
      cases h
      exact ha
    case pop p =>
      split at h
      · cases h
        exact ha
      · cases h
        split <;> exact ha
    all_goals
      cases h
      exact ha

variable {c c' : Client} {S held : ℕ} {pid : ℤ} {st : Stage}

/-- The alarm is about the clients that raise `BARBER` or use the ring only. -/
theorem Alarm.congr {barber slower : ℕ} (ha : Alarm n v barber slower st awake)
    (hraising : n' .raising = n .raising) (hshaking : n' .shaking = n .shaking)
    (hsitting : n' .sitting = n .sitting) (hpushing : n' .pushing ≤ n .pushing) :
    Alarm n' v barber slower st awake := by
  cases v with
  | sysV =>
    obtain ⟨barber, slower, stage, asleep, awakened, visit, pushing⟩ := ha
    refine ⟨?_, slower, stage, ?_, awakened, ?_, fun hpos => pushing (by omega)⟩ <;>
      simpa only [hraising, hshaking, hsitting]
  | posix =>
    obtain ⟨barber, slower, stage, sitting, asleep, awakened, visit, pushing⟩ := ha
    refine ⟨?_, ?_, ?_, ?_, ?_, awakened, ?_, fun hpos => pushing (by omega)⟩ <;>
      simpa only [hraising, hshaking, hsitting]

/-- Who raises `BARBER` or is about to take the chair finds the barber asleep, and on its way
at most as far as the wait on `FIFO`. -/
theorem Alarm.waking {barber slower : ℕ} (ha : Alarm n v barber slower st awake)
    (hpos : 0 < n .raising + n .shaking + n .sitting) :
    awake = false ∧ st ≠ .busy ∧ st ≠ .dozing := by
  cases v with
  | sysV =>
    obtain ⟨hasleep, hst⟩ := SysVAlarm.visit ha hpos
    rcases hst with rfl | ⟨rfl, -⟩ <;> simp [hasleep]
  | posix =>
    obtain ⟨hasleep, hst⟩ := PosixAlarm.visit ha hpos
    exact ⟨hasleep, (PosixAlarm.asleep ha hasleep).1, hst⟩

/-- A busy barber is awake. -/
theorem Alarm.busy {barber slower : ℕ} (ha : Alarm n v barber slower .busy awake) :
    awake = true := by
  by_contra hne
  rw [Bool.not_eq_true] at hne
  cases v with
  | sysV =>
    have := SysVAlarm.asleep ha hne
    simp at this
  | posix => exact (PosixAlarm.asleep ha hne).1 rfl

/-- A barber at home whom nobody has woken is asleep. -/
theorem Alarm.home {slower : ℕ} (ha : Alarm n v 0 slower .home awake) : awake = false := by
  by_contra hne
  rw [Bool.not_eq_false] at hne
  cases v with
  | sysV =>
    have := SysVAlarm.barber ha
    simp only [hne, Bool.toNat_true, true_or, if_true] at this
    omega
  | posix =>
    have := PosixAlarm.awakened ha hne
    simp at this

/-- A busy barber can fall asleep. -/
theorem Alarm.busy_pos {barber slower : ℕ} (ha : Alarm n v barber slower .busy awake) :
    0 < barber := by
  have hawake := ha.busy
  cases v with
  | sysV =>
    have := SysVAlarm.barber ha
    simp only [hawake, Bool.toNat_true, reduceCtorEq, or_self, if_false] at this
    omega
  | posix =>
    have := PosixAlarm.barber ha
    simp only [hawake, Bool.toNat_true, reduceCtorEq, if_false] at this
    omega

/-- While a client of `cw07/zad2` waits on `SLOWER`, the barber has raised it or is about to. -/
theorem Alarm.shaking {barber slower : ℕ} (ha : Alarm n .posix barber slower st awake)
    (hpos : 0 < n .shaking) :
    0 < slower ∨ st = .home ∧ 0 < barber ∨ st = .raising ∨ st = .slowing := by
  obtain ⟨hasleep, hbusy, hdozing⟩ := ha.waking (by omega)
  have hbarber := PosixAlarm.barber ha
  have hslower := PosixAlarm.slower ha
  cases st
  case home =>
    rw [if_neg (by simp)] at hbarber
    exact .inr (.inl ⟨rfl, by omega⟩)
  case raising => exact .inr (.inr (.inl rfl))
  case slowing => exact .inr (.inr (.inr rfl))
  case coming =>
    rw [if_pos rfl] at hslower
    exact .inl (by omega)
  case busy => exact absurd rfl hbusy
  case dozing => exact absurd rfl hdozing

/-- Who uses the ring finds the barber awake. -/
theorem Alarm.waiting {barber slower : ℕ} (ha : Alarm n v barber slower st awake)
    (hpos : 0 < n .pushing) : awake = true := by
  cases v with
  | sysV => exact SysVAlarm.pushing ha hpos
  | posix => exact PosixAlarm.pushing ha hpos

/-- A step of a client keeps the locks. -/
theorem locks_client (hl : Locks n m.semCheck m.semFifo held)
    (h : getCut v S pid m c = some (m', c', e))
    (move : ∀ k, n' k + (if c.pc.phase = k then 1 else 0) =
      n k + (if c'.pc.phase = k then 1 else 0)) :
    Locks n' m'.semCheck m'.semFifo held := by
  obtain ⟨check, fifo⟩ := hl
  have h1 := move .entering
  have h2 := move .looking
  have h3 := move .raising
  have h4 := move .shaking
  have h5 := move .sitting
  have h6 := move .pushing
  have h7 := move .done
  have h8 := move .leaving
  clear move
  simp only [checkHolders, fifoHolders] at check fifo
  cases hpc : c.pc <;> simp only [getCut, hpc, reduceCtorEq] at h h1 h2 h3 h4 h5 h6 h7 h8
  case' handshake => cases v <;> simp only at h
  case' waitCheck | waitFifo | handshake.posix =>
    obtain ⟨x, hx, h⟩ := Option.map_eq_some_iff.mp h
    rw [wait_eq_some] at hx
  case' push p =>
    split at h
    case' h_2 => split at h
  case' suspend => obtain ⟨-, h⟩ := Option.ite_none_left_eq_some.mp h
  case' test | getValue | postCheck => split at h
  all_goals
    cases h
    simp only [ClientPc.phase, reduceCtorEq, if_true, if_false] at h1 h2 h3 h4 h5 h6 h7 h8
    constructor <;> simp only [checkHolders, fifoHolders, post] <;> lia

/-- The numbers of clients in the phases the alarm is about. -/
structure Inside (n : CPhase → ℕ) (raising shaking sitting pushing : ℕ) : Prop where
  raising : n .raising = raising
  shaking : n .shaking = shaking
  sitting : n .sitting = sitting
  pushing : n .pushing = pushing

variable {barber slower : ℕ}

/-- Who reads `0` in `BARBER` finds the barber asleep at home. -/
theorem Alarm.read_zero (ha : Alarm n v 0 slower st awake) (hn : Inside n 0 0 0 0)
    (hst : st ≠ .dozing) : awake = false ∧ st = .home := by
  obtain ⟨-, e2, e3, -⟩ := hn
  have hasleep : awake = false := by
    by_contra hne
    rw [Bool.not_eq_false] at hne
    subst hne
    cases v with
    | sysV =>
      have := SysVAlarm.barber ha
      simp only [e2, e3, Bool.toNat_true] at this
      split at this <;> omega
    | posix =>
      have := PosixAlarm.barber ha
      rcases PosixAlarm.awakened ha rfl with rfl | rfl <;> simp [e2, e3] at this
  refine ⟨hasleep, ?_⟩
  cases v with
  | sysV =>
    rcases SysVAlarm.asleep ha hasleep with hhome | hdozing | ⟨-, hpos⟩
    · exact hhome
    · exact absurd hdozing hst
    · omega
  | posix =>
    obtain ⟨hbusy, hcoming⟩ := PosixAlarm.asleep ha hasleep
    have hrising := PosixAlarm.stage ha
    cases st <;> simp [e2, e3] at hst hbusy hcoming hrising ⊢

/-- Who reads a positive `BARBER` finds the barber awake. -/
theorem Alarm.read_pos (ha : Alarm n v barber slower st awake) (hn : Inside n 0 0 0 0)
    (hpos : barber ≠ 0) : awake = true := by
  obtain ⟨-, e2, e3, -⟩ := hn
  by_contra hne
  rw [Bool.not_eq_true] at hne
  subst hne
  cases v with
  | sysV =>
    have := SysVAlarm.barber ha
    simp only [e2, e3, Bool.toNat_false] at this
    omega
  | posix =>
    have := PosixAlarm.barber ha
    simp only [e2, e3, Bool.toNat_false] at this
    omega

/-- The client has read `0`. -/
theorem Alarm.raise (ha : Alarm n v 0 slower .home false) (hn : Inside n 0 0 0 0)
    (hn' : Inside n' 1 0 0 0) : Alarm n' v 0 slower .home false := by
  obtain ⟨-, e2, e3, -⟩ := hn
  obtain ⟨e1', e2', e3', e4'⟩ := hn'
  cases v with
  | sysV =>
    have := SysVAlarm.slower ha
    constructor <;> simp [e1', e2', e3', e4', this]
  | posix =>
    have := PosixAlarm.slower ha
    simp only [reduceCtorEq, if_false] at this
    constructor <;> simp [e1', e2', e3', e4', this]

/-- The client has read a positive value. -/
theorem Alarm.line (ha : Alarm n v barber slower st true) (hn : Inside n 0 0 0 0)
    (hn' : Inside n' 0 0 0 1) : Alarm n' v barber slower st true := by
  obtain ⟨e1, e2, e3, e4⟩ := hn
  obtain ⟨e1', e2', e3', e4'⟩ := hn'
  cases v with
  | sysV =>
    obtain ⟨barber, slower, stage, -, awakened, -, -⟩ := ha
    simp only [e2, e3] at barber
    refine ⟨?_, slower, stage, by simp, awakened, ?_, fun _ => rfl⟩
    · rw [e2', e3']
      exact barber
    · intro hpos
      omega
  | posix =>
    obtain ⟨barber, slower, stage, -, -, awakened, -, -⟩ := ha
    simp only [e2, e3] at barber slower stage
    constructor <;> simp_all

/-- The client has raised `BARBER` for the first time. -/
theorem Alarm.first (ha : Alarm n v barber slower st awake) (hn : Inside n 1 0 0 0)
    (hn' : Inside n' 0 1 0 0) : Alarm n' v (barber + 1) slower st awake := by
  obtain ⟨e1, e2, e3, e4⟩ := hn
  obtain ⟨e1', e2', e3', e4'⟩ := hn'
  cases v with
  | sysV =>
    obtain ⟨barber, slower, stage, -, -, visit, -⟩ := ha
    obtain ⟨rfl, rfl | ⟨-, hzero⟩⟩ := visit (by omega)
    · simp [e2, e3] at barber
      constructor <;> simp [e1', e2', e3', e4', barber, slower]
    · omega
  | posix =>
    obtain ⟨barber, slower, stage, -, asleep, -, visit, -⟩ := ha
    obtain ⟨rfl, hdozing⟩ := visit (by omega)
    obtain ⟨hbusy, hcoming⟩ := asleep rfl
    cases st <;> simp [e2, e3] at barber slower stage hbusy hcoming hdozing
    constructor <;> simp [e1', e2', e3', e4', barber, slower]

/-- The client of `cw07/zad1` has raised `BARBER` again. -/
theorem SysVAlarm.second (ha : SysVAlarm n barber slower st awake) (hn : Inside n 0 1 0 0)
    (hn' : Inside n' 0 0 1 0) : SysVAlarm n' (barber + 1) slower st awake := by
  obtain ⟨e1, e2, e3, e4⟩ := hn
  obtain ⟨e1', e2', e3', e4'⟩ := hn'
  obtain ⟨barber, slower, stage, -, -, visit, -⟩ := ha
  obtain ⟨rfl, rfl | ⟨rfl, -⟩⟩ := visit (by omega)
  all_goals
    simp [e2, e3] at barber
    constructor <;> simp [e1', e2', e3', e4', barber, slower]

/-- The client of `cw07/zad2` has been let go by `SLOWER`. -/
theorem PosixAlarm.second (ha : PosixAlarm n barber (slower + 1) st awake)
    (hn : Inside n 0 1 0 0) (hn' : Inside n' 0 0 1 0) :
    PosixAlarm n' barber slower st awake := by
  obtain ⟨e1, e2, e3, e4⟩ := hn
  obtain ⟨e1', e2', e3', e4'⟩ := hn'
  obtain ⟨barber, slower, -, -, -, -, visit, -⟩ := ha
  obtain ⟨rfl, -⟩ := visit (by omega)
  cases st <;> simp [e2, e3] at barber slower
  constructor <;> simp [e1', e2', e3', e4', barber, slower]

/-- The client has taken the chair. -/
theorem Alarm.seat (ha : Alarm n v barber slower st awake) (hn : Inside n 0 0 1 0)
    (hn' : Inside n' 0 0 0 0) : Alarm n' v barber slower st true := by
  obtain ⟨e1, e2, e3, e4⟩ := hn
  obtain ⟨e1', e2', e3', e4'⟩ := hn'
  cases v with
  | sysV =>
    obtain ⟨barber, slower, stage, -, -, visit, -⟩ := ha
    obtain ⟨rfl, rfl | ⟨rfl, -⟩⟩ := visit (by omega)
    all_goals
      simp [e2, e3] at barber
      constructor <;> simp [e1', e2', e3', e4', barber, slower]
  | posix =>
    obtain ⟨barber, slower, -, sitting, -, -, visit, -⟩ := ha
    obtain ⟨rfl, -⟩ := visit (by omega)
    obtain rfl := sitting (by omega)
    simp [e2, e3] at barber slower
    constructor <;> simp [e1', e2', e3', e4', barber, slower]

/-- A step of a client keeps the alarm: of `cw07/zad1` with the two increments of `BARBER`,
of `cw07/zad2` with one increment and the wait on `SLOWER`. -/
theorem alarm_client (ha : Alarm n v m.semBarber m.semSlower st awake)
    (hl : Locks n m.semCheck m.semFifo held) (hheld : st = .dozing → held = 1)
    (h : getCut v S pid m c = some (m', c', e)) (hpos : 0 < n c.pc.phase)
    (move : ∀ k, n' k + (if c.pc.phase = k then 1 else 0) =
      n k + (if c'.pc.phase = k then 1 else 0)) :
    Alarm n' v m'.semBarber m'.semSlower st (awakeAfter awake e) := by
  have hfifo := hl.fifo
  simp only [fifoHolders] at hfifo
  have h1 := move .raising
  have h2 := move .shaking
  have h3 := move .sitting
  have h4 := move .pushing
  clear move
  cases hpc : c.pc <;> simp only [getCut, hpc, reduceCtorEq] at h hpos h1 h2 h3 h4
  case' waitCheck | waitFifo => obtain ⟨x, -, h⟩ := Option.map_eq_some_iff.mp h
  case' push p =>
    split at h
    case' h_2 => split at h
  case' suspend => obtain ⟨-, h⟩ := Option.ite_none_left_eq_some.mp h
  case' test | postCheck => split at h
  -- who holds `FIFO` is alone in the phases the alarm is about
  case getValue =>
    simp only [ClientPc.phase] at hpos
    have hn : Inside n 0 0 0 0 := by constructor <;> omega
    split at h <;> cases h <;>
      simp only [ClientPc.phase, reduceCtorEq, if_true, if_false] at h1 h2 h3 h4
    · rename_i hzero
      rw [hzero] at ha ⊢
      obtain ⟨rfl, rfl⟩ := ha.read_zero hn fun hst => by
        have := hheld hst
        omega
      exact ha.raise hn (by constructor <;> omega)
    · rename_i hne
      obtain rfl := ha.read_pos hn hne
      exact ha.line hn (by constructor <;> omega)
  case postBarber =>
    cases h
    simp only [ClientPc.phase, reduceCtorEq, if_true, if_false] at hpos h1 h2 h3 h4
    exact ha.first (by constructor <;> omega) (by constructor <;> omega)
  case handshake =>
    cases v with
    | sysV =>
      cases h
      simp only [ClientPc.phase, reduceCtorEq, if_true, if_false] at hpos h1 h2 h3 h4
      exact SysVAlarm.second ha (by constructor <;> omega) (by constructor <;> omega)
    | posix =>
      obtain ⟨x, hx, h⟩ := Option.map_eq_some_iff.mp h
      rw [wait_eq_some] at hx
      cases h
      rw [hx] at ha
      simp only [ClientPc.phase, reduceCtorEq, if_true, if_false] at hpos h1 h2 h3 h4
      exact PosixAlarm.second ha (by constructor <;> omega) (by constructor <;> omega)
  case writeChair =>
    cases h
    simp only [ClientPc.phase, reduceCtorEq, if_true, if_false] at hpos h1 h2 h3 h4
    exact ha.seat (by constructor <;> omega) (by constructor <;> omega)
  all_goals
    cases h
    simp only [ClientPc.phase, reduceCtorEq, if_false] at h1 h2 h3 h4
    exact ha.congr (by omega) (by omega) (by omega) (by omega)

end Steps

/-! ## The holders of the locks -/

/-- The permits of `FIFO` a client holds. -/
def CPhase.holdsFifo : CPhase → ℕ
  | .looking | .raising | .shaking | .sitting | .pushing | .done => 1
  | .outside | .entering | .leaving => 0

/-- The permits of `CHECK` a client holds. -/
def CPhase.holdsCheck : CPhase → ℕ
  | .entering | .looking | .raising | .shaking | .sitting | .pushing | .done | .leaving => 1
  | .outside => 0

variable {ι : Type} [Fintype ι]

/-- The number of clients in a phase. -/
def State.n (s : State ι) (k : CPhase) : ℕ :=
  count (fun c => (s.client c).pc.phase) k

/-- The holders of `FIFO`, client by client. -/
theorem fifoHolders_eq (s : State ι) :
    fifoHolders s.n = census (fun t : Client => t.pc.phase.holdsFifo) s.client := by
  have hphase : ∀ k : CPhase, (if k = .looking then 1 else 0) + (if k = .raising then 1 else 0) +
      (if k = .shaking then 1 else 0) + (if k = .sitting then 1 else 0) +
      (if k = .pushing then 1 else 0) + (if k = .done then 1 else 0) = k.holdsFifo := by
    intro k
    cases k <;> rfl
  simp only [fifoHolders, State.n, count, census, ← Finset.sum_add_distrib]
  exact Finset.sum_congr rfl fun c _ => hphase _

/-- The holders of `CHECK`, client by client. -/
theorem checkHolders_eq (s : State ι) :
    checkHolders s.n = census (fun t : Client => t.pc.phase.holdsCheck) s.client := by
  have hphase : ∀ k : CPhase, (if k = .entering then 1 else 0) + k.holdsFifo +
      (if k = .leaving then 1 else 0) = k.holdsCheck := by
    intro k
    cases k <;> rfl
  rw [checkHolders, fifoHolders_eq]
  simp only [State.n, count, census, ← Finset.sum_add_distrib]
  exact Finset.sum_congr rfl fun c _ => hphase _

variable [DecidableEq ι] {s : State ι} {check fifo held : ℕ}

/-- Two clients that hold `CHECK` are one. -/
theorem Locks.check_alone (hl : Locks s.n check fifo held) {c c' : ι}
    (hc : (s.client c).pc.phase.holdsCheck = 1) (hc' : (s.client c').pc.phase.holdsCheck = 1) :
    c = c' := by
  by_contra hne
  have htwo := add_le_census (fun t : Client => t.pc.phase.holdsCheck) s.client hne
  rw [← checkHolders_eq, hc, hc'] at htwo
  have := hl.check
  omega

omit [DecidableEq ι] in
/-- While a client holds `FIFO`, the barber does not. -/
theorem Locks.barber_out (hl : Locks s.n check fifo held) {c : ι}
    (hc : (s.client c).pc.phase.holdsFifo = 1) : held = 0 := by
  have hone := le_census (fun t : Client => t.pc.phase.holdsFifo) s.client c
  rw [← fifoHolders_eq, hc] at hone
  have := hl.fifo
  omega

omit [DecidableEq ι] in
/-- While the barber holds `FIFO`, no client does. -/
theorem Locks.clients_out (hl : Locks s.n check fifo held) (hheld : held = 1) (c : ι) :
    (s.client c).pc.phase.holdsFifo = 0 := by
  have hone := le_census (fun t : Client => t.pc.phase.holdsFifo) s.client c
  rw [← fifoHolders_eq] at hone
  have := hl.fifo
  omega

end SystemyOperacyjne.BarberShop
