import SystemyOperacyjne.Analysis.InFileSort
import SystemyOperacyjne.Library.Exchanges
import SystemyOperacyjne.Model.RecordShuffle

/-!
# The orders that a shuffle produces

On a file that holds its records a round exchanges two of them (`exchangeRecords_layout`), so a
shuffle is `exchanges`, each record with one strictly in front of it. Nothing is lost, but the
order of the file never comes out again unless all the records are equal
(`shuffle_orders_iff`).
-/

set_option autoImplicit false

namespace SystemyOperacyjne.RecordSort

open Library

variable {k : ℕ} {l : List (List UInt8)} {rest record1 record2 : List UInt8} {i j : ℕ}

/-! ## Access to a record by its number -/

/-- A seek to a record, by its number. -/
theorem seek_layout (l : List (List UInt8)) (rest : List UInt8) (o : ℕ) (hint : i * k < 2 ^ 31) :
    (layout l rest o).seek (intMul i k) = layout l rest (i * k) := by
  rw [intMul_eq hint, ByteFile.seek_nat]
  rfl

/-- Reading record `i`. -/
theorem read_layout (hl : ∀ r ∈ l, r.length = k) (rest : List UInt8) (hi : i < l.length) :
    (layout l rest (i * k)).read k = (l[i], layout l rest (i * k + k)) := by
  have hsplit : l.take i ++ l[i] :: l.drop (i + 1) = l := by
    rw [List.getElem_cons_drop, List.take_append_drop]
  have hbytes : l.flatten ++ rest =
      (l.take i).flatten ++ l[i] ++ ((l.drop (i + 1)).flatten ++ rest) := by
    have hflatten := congrArg List.flatten hsplit
    rw [List.flatten_append, List.flatten_cons] at hflatten
    rw [← hflatten]
    simp only [List.append_assoc]
  have hoffset : i * k = (l.take i).flatten.length := by
    rw [length_flatten_of_forall fun r hr => hl r (List.mem_of_mem_take hr),
      List.length_take_of_le hi.le]
  unfold layout
  rw [hbytes, hoffset, ByteFile.read_part _ _ _ (hl _ (List.getElem_mem hi))]

/-- Either way of reading gives record `i`. -/
theorem Access.read_layout (a : Access) (hl : ∀ r ∈ l, r.length = k) (rest : List UInt8)
    (hi : i < l.length) {buffer : List UInt8} (hbuffer : buffer.length = k) :
    a.read k buffer (layout l rest (i * k)) = .ok (l[i], layout l rest (i * k + k)) := by
  have hlength : l[i].length = k := hl _ (List.getElem_mem hi)
  cases a with
  | sys =>
    simp only [Access.read]
    rw [RecordSort.read_layout hl rest hi]
    simp only
    rw [hlength, ← hbuffer, List.drop_length, List.append_nil]
  | lib =>
    simp only [Access.read, readRecord]
    rw [RecordSort.read_layout hl rest hi]
    simp only
    rw [if_neg (by simpa using hlength)]

/-- Writing record `i`. -/
theorem writeRecord_at (t : Texts) (hk : 1 ≤ k) (hl : ∀ r ∈ l, r.length = k) (rest : List UInt8)
    (hi : i < l.length) {record : List UInt8} (hrecord : record.length = k) :
    writeRecord t k record (layout l rest (i * k)) =
      .ok (layout (l.set i record) rest (i * k + k)) := by
  have hsplit : l.take i ++ l[i] :: l.drop (i + 1) = l := by
    rw [List.getElem_cons_drop, List.take_append_drop]
  have hwrite := writeRecord_layout t (l.drop (i + 1)) rest hk (x := l[i])
    (o := i * k) (by rw [List.length_take_of_le hi.le])
    (fun r (hr : r ∈ l.take i) => hl r (List.mem_of_mem_take hr)) (hl _ (List.getElem_mem hi))
    hrecord
  rw [hsplit] at hwrite
  rw [hwrite, List.set_eq_take_append_cons_drop, if_pos hi]

/-! ## The rounds -/

/-- **A round exchanges two records**, and leaves them in the buffers. -/
theorem exchangeRecords_layout (a : Access) (hk : 1 ≤ k) (hl : ∀ r ∈ l, r.length = k)
    (rest : List UInt8) (hi : i < l.length) (hj : j < l.length) (hinti : i * k < 2 ^ 31)
    (hintj : j * k < 2 ^ 31) (h1 : record1.length = k) (h2 : record2.length = k) (o : ℕ) :
    ∃ o', exchangeRecords a k i j
        { file := layout l rest o, record1 := record1, record2 := record2 } =
      .ok { file := layout (exchange l i j) rest o', record1 := l[i], record2 := l[j] } := by
  have hread1 := a.read_layout hl rest hi h1
  have hread2 := a.read_layout hl rest hj h2
  have hli : l[i].length = k := hl _ (List.getElem_mem hi)
  have hlj : l[j].length = k := hl _ (List.getElem_mem hj)
  have hwrite1 := writeRecord_at a.texts hk hl rest hi hlj
  have hset : ∀ r ∈ l.set i l[j], r.length = k := by
    intro r hr
    rcases List.mem_or_eq_of_mem_set hr with hr | rfl
    · exact hl r hr
    · exact hlj
  have hwrite2 := writeRecord_at a.texts hk hset rest (by simpa using hj) hli
  have hexchange : exchange l i j = (l.set i l[j]).set j l[i] := by
    rw [exchange, dif_pos ⟨hi, hj⟩]
  refine ⟨j * k + k, ?_⟩
  unfold exchangeRecords
  simp only [seek_layout _ _ _ hinti, seek_layout _ _ _ hintj, hread1, hread2, hwrite1, hwrite2,
    bind, Except.bind, pure, Except.pure]
  rw [hexchange]

/-- The record that record `i` is exchanged with. -/
def partner (rand : Rand) (i : ℕ) : ℕ :=
  (rand i : ℕ) % i

/-- **The loop is `exchanges`.** The induction is on the rounds left. -/
theorem rounds_layout (a : Access) (rand : Rand) (hk : 1 ≤ k) (rest : List UInt8) {m : ℕ}
    (hl : ∀ r ∈ l, r.length = k) (hm : m = 0 ∨ m < l.length)
    (hint : ∀ i, i < l.length → i * k < 2 ^ 31) (h1 : record1.length = k)
    (h2 : record2.length = k) (o : ℕ) :
    ∃ o' r1 r2, rounds a k rand m
        { file := layout l rest o, record1 := record1, record2 := record2 } =
      .ok { file := layout (exchanges (partner rand) m l) rest o',
            record1 := r1, record2 := r2 } := by
  induction m generalizing l record1 record2 o with
  | zero => exact ⟨o, record1, record2, rfl⟩
  | succ m ih =>
    have hi : m + 1 < l.length := by omega
    have hlt : partner rand (m + 1) < m + 1 := Nat.mod_lt _ (Nat.succ_pos m)
    have hj : partner rand (m + 1) < l.length := by omega
    obtain ⟨o₁, hround⟩ := exchangeRecords_layout a hk hl rest hi hj (hint _ hi) (hint _ hj) h1 h2 o
    have hlength := length_exchange l (m + 1) (partner rand (m + 1))
    obtain ⟨o₂, r1, r2, hrest⟩ := ih (l := exchange l (m + 1) (partner rand (m + 1)))
      (fun r hr => hl r ((exchange_perm l _ _).mem_iff.mp hr)) (by omega)
      (fun i hi => hint i (by omega)) (hl _ (List.getElem_mem hi)) (hl _ (List.getElem_mem hj)) o₁
    refine ⟨o₂, r1, r2, ?_⟩
    unfold partner at hround
    simp only [rounds, hround, bind, Except.bind]
    exact hrest

/-- Either function, on a file that holds the records. -/
theorem shuffle_eq (a : Access) (rand : Rand) (hk : 1 ≤ k) (hl : ∀ r ∈ l, r.length = k)
    (hint : ∀ i, i < l.length → i * k < 2 ^ 31) (h1 : record1.length = k)
    (h2 : record2.length = k) :
    shuffle a record1 record2 rand (some l.flatten) l.length k =
      .ok (exchanges (partner rand) (l.length - 1) l).flatten := by
  obtain ⟨o, r1, r2, hrounds⟩ := rounds_layout a rand hk [] hl (m := l.length - 1) (by omega) hint
    h1 h2 0
  unfold shuffle
  unfold layout at hrounds
  rw [List.append_nil, List.append_nil] at hrounds
  simp only [hrounds]
  rfl

/-! ## The orders that come out -/

/-- The file made of the records. -/
def fileOf (l : List (List UInt8)) : List UInt8 :=
  l.flatten

/-- A file that is made of records says which they are. -/
theorem fileOf_injective {l' : List (List UInt8)} (hl : ∀ r ∈ l, r.length = k)
    (hl' : ∀ r ∈ l', r.length = k) (hlength : l'.length = l.length) (h : fileOf l' = fileOf l) :
    l' = l := by
  have hrecords := records_flatten hl []
  have hrecords' := records_flatten hl' []
  rw [hlength, show l'.flatten = l.flatten from h, hrecords] at hrecords'
  exact hrecords'.symm

/-- The files that `shuffle` leaves, for all sequences of results of `rand()`. -/
def shuffledFiles (a : Access) (record1 record2 : List UInt8) (l : List (List UInt8)) (k : ℕ) :
    Set (List UInt8) :=
  {file | ∃ rand, shuffle a record1 record2 rand (some (fileOf l)) l.length k = .ok file}

/-- The files with the records in any order. -/
def orderedFiles (l : List (List UInt8)) : Set (List UInt8) :=
  {file | ∃ l', l'.Perm l ∧ fileOf l' = file}

/-- **Every order comes out exactly when there is only one**: the old order does not, unless all
the records are equal. -/
theorem shuffledFiles_eq_iff (a : Access) (hk : 1 ≤ k) (hl : ∀ r ∈ l, r.length = k)
    (hint : ∀ i, i < l.length → i * k < 2 ^ 31) (h1 : record1.length = k)
    (h2 : record2.length = k) :
    shuffledFiles a record1 record2 l k = orderedFiles l ↔ ∀ x ∈ l, ∀ y ∈ l, x = y := by
  constructor
  · intro heq
    have hold : fileOf l ∈ orderedFiles l := ⟨l, List.Perm.refl l, rfl⟩
    rw [← heq] at hold
    obtain ⟨rand, hrand⟩ := hold
    rw [fileOf, shuffle_eq a rand hk hl hint h1 h2, Except.ok.injEq] at hrand
    have hperm := exchanges_perm (partner rand) (l.length - 1) l
    have hsame := fileOf_injective hl (fun r hr => hl r (hperm.mem_iff.mp hr)) hperm.length_eq hrand
    intro x hx y hy
    obtain ⟨p, hp, rfl⟩ := List.mem_iff_getElem.mp hx
    obtain ⟨q, hq, rfl⟩ := List.mem_iff_getElem.mp hy
    have hpartner : ∀ i, 0 < i → partner rand i < i := fun i hi => Nat.mod_lt _ hi
    have hall := eq_of_exchanges_eq hpartner (by omega) hsame
    have hpq := (hall p (by omega)).trans (hall q (by omega)).symm
    rw [List.getElem?_eq_getElem hp, List.getElem?_eq_getElem hq, Option.some.injEq] at hpq
    exact hpq
  · intro hall
    ext file
    constructor
    · rintro ⟨rand, hrand⟩
      rw [fileOf, shuffle_eq a rand hk hl hint h1 h2, Except.ok.injEq] at hrand
      exact ⟨_, exchanges_perm _ _ l, hrand⟩
    · rintro ⟨l', hperm, rfl⟩
      refine ⟨fun _ => 0, ?_⟩
      rw [fileOf, shuffle_eq a _ hk hl hint h1 h2, perm_eq_of_forall_eq hall hperm,
        perm_eq_of_forall_eq hall (exchanges_perm _ _ l)]
      rfl

/-- **Shuffling**. `shuffleSys` and `shuffleLib` leave the records of the file in some order, none
lost or duplicated, and leave them in every order for some results of `rand()` exactly when
all the records are equal.
SOURCE: cw02/zad1/shuffler.c:26-53, cw02/zad1/shuffler.c:77-113 -/
theorem shuffle_orders_iff {k : ℕ} {l : List (List UInt8)} (size_pos : 1 ≤ k)
    (sizes : ∀ r ∈ l, r.length = k) (offsets : ∀ i, i < l.length → i * k < 2 ^ 31)
    {record1 record2 : List UInt8} (buffer1 : record1.length = k) (buffer2 : record2.length = k) :
    (∀ rand, ∃ l', l'.Perm l ∧
      shuffleSys record1 record2 rand (some (fileOf l)) l.length k = .ok (fileOf l') ∧
      shuffleLib record1 record2 rand (some (fileOf l)) l.length k = .ok (fileOf l')) ∧
    ({file | ∃ rand, shuffleSys record1 record2 rand (some (fileOf l)) l.length k =
        .ok file} = orderedFiles l ↔ ∀ x ∈ l, ∀ y ∈ l, x = y) ∧
    ({file | ∃ rand, shuffleLib record1 record2 rand (some (fileOf l)) l.length k =
        .ok file} = orderedFiles l ↔ ∀ x ∈ l, ∀ y ∈ l, x = y) := by
  refine ⟨?_, ?_, ?_⟩
  · intro rand
    exact ⟨_, exchanges_perm (partner rand) (l.length - 1) l,
      shuffle_eq .sys rand size_pos sizes offsets buffer1 buffer2,
      shuffle_eq .lib rand size_pos sizes offsets buffer1 buffer2⟩
  · exact shuffledFiles_eq_iff .sys size_pos sizes offsets buffer1 buffer2
  · exact shuffledFiles_eq_iff .lib size_pos sizes offsets buffer1 buffer2

/-- Three records of two bytes, two of them equal. -/
def threeRecords : List (List UInt8) :=
  [[1, 2], [3, 4], [1, 2]]

/-- Three records, of which two are equal. -/
theorem shuffle_orders_iff_three :
    (∀ rand, ∃ l', l'.Perm threeRecords ∧
      shuffleSys [0, 0] [0, 0] rand (some (fileOf threeRecords)) threeRecords.length 2 =
        .ok (fileOf l') ∧
      shuffleLib [0, 0] [0, 0] rand (some (fileOf threeRecords)) threeRecords.length 2 =
        .ok (fileOf l')) ∧
    ({file | ∃ rand, shuffleSys [0, 0] [0, 0] rand (some (fileOf threeRecords))
        threeRecords.length 2 = .ok file} = orderedFiles threeRecords ↔
      ∀ x ∈ threeRecords, ∀ y ∈ threeRecords, x = y) ∧
    ({file | ∃ rand, shuffleLib [0, 0] [0, 0] rand (some (fileOf threeRecords))
        threeRecords.length 2 = .ok file} = orderedFiles threeRecords ↔
      ∀ x ∈ threeRecords, ∀ y ∈ threeRecords, x = y) := by
  apply shuffle_orders_iff
  · decide
  · decide
  · intro i hi
    have : threeRecords.length = 3 := rfl
    omega
  · rfl
  · rfl

/-- Two records always change places: the order of the file is not among those that come out. -/
theorem shuffle_not_unchanged : [1, 2] ∈ orderedFiles [[1], [2]] ∧
    ∀ rand, shuffleSys [0] [0] rand (some [1, 2]) 2 1 ≠ .ok [1, 2] := by
  refine ⟨⟨[[1], [2]], List.Perm.refl _, rfl⟩, ?_⟩
  intro rand hold
  have hint : ∀ i, i < List.length [[(1 : UInt8)], [2]] → i * 1 < 2 ^ 31 := by
    intro i hi
    simp only [List.length_cons, List.length_nil] at hi
    omega
  have hbuffer : [(0 : UInt8)].length = 1 := rfl
  have hrun := shuffle_eq .sys rand (l := [[1], [2]]) (le_refl 1) (by decide) hint hbuffer hbuffer
  have horder : exchanges (partner rand) 1 ([[1], [2]] : List (List UInt8)) = [[2], [1]] := by
    rw [exchanges, partner, Nat.mod_one]
    rfl
  have hsame : Except.ok (exchanges (partner rand) 1 [[1], [2]]).flatten =
      (Except.ok [1, 2] : Except Exit (List UInt8)) := hrun.symm.trans hold
  rw [horder] at hsame
  cases hsame

end SystemyOperacyjne.RecordSort
