import SystemyOperacyjne.Analysis.InFileSort
import SystemyOperacyjne.Model.RecordSeeks

/-!
# Offsets beyond an int

A call for record `i` is given `i * recordSize` exactly when this is below `2 ^ 31`
(`seekRecord_hits_iff`). A shuffle begins with the last record. A sort comes to record `i` once
the rounds before it have read what lies in front, so what the file holds limits how far it
comes: the first record whose offset does not fit is reached when the file holds that record
(`offsets_iff`).
-/

set_option autoImplicit false

namespace SystemyOperacyjne.RecordSort

open Library

variable {c : CharSign} {t : Texts} {a : Access} {rand : Rand} {k m n e i j : ℕ} {change : Bool}
  {f : ByteFile UInt8}

/-- The offset is the product of the record number and the size of a record, and it is there
that the file is accessed. -/
def Seek.Hits (k : ℕ) (s : Seek) : Prop :=
  s.offset = ((s.record * k : ℕ) : ℤ) ∧ s.position = s.record * k

/-- When a seek goes where it should. -/
theorem Seek.hits_mk {record position : ℕ} {offset : ℤ} : (Seek.mk record offset position).Hits k ↔
    offset = ((record * k : ℕ) : ℤ) ∧ position = record * k :=
  Iff.rfl

/-- **A product that does not fit an int is not the offset.** -/
theorem seekRecord_hits_iff : (seekRecord k i f).Hits k ↔ i * k < 2 ^ 31 := by
  unfold seekRecord
  rw [Seek.hits_mk]
  constructor
  · rintro ⟨hoffset, -⟩
    have hlt : intMul i k < 2 ^ 31 := by
      have hbmod := Int.bmod_lt (x := (i : ℤ) * k) (m := 2 ^ 32) (by decide)
      unfold intMul
      omega
    rw [hoffset] at hlt
    omega
  · intro hint
    rw [intMul_eq hint, ByteFile.seek_nat]
    exact ⟨rfl, rfl⟩

/-! ## The shuffles -/

/-- An exchange seeks the two records only. -/
theorem record_of_mem_exchangeSeeks {s : Shuffling} {x : Seek}
    (hx : x ∈ exchangeSeeks a k i j s) : ∃ f, x = seekRecord k i f ∨ x = seekRecord k j f := by
  unfold exchangeSeeks at hx
  rcases List.mem_cons.mp hx with rfl | hx
  · exact ⟨_, Or.inl rfl⟩
  split at hx
  · cases hx
  rcases List.mem_cons.mp hx with rfl | hx
  · exact ⟨_, Or.inr rfl⟩
  split at hx
  · cases hx
  rcases List.mem_cons.mp hx with rfl | hx
  · exact ⟨_, Or.inl rfl⟩
  split at hx
  · cases hx
  · rw [List.mem_singleton.mp hx]
    exact ⟨_, Or.inr rfl⟩

/-- The calls of the rounds for records up to `m`. The induction is on the rounds left. -/
theorem roundsSeeks_hits (hint : m * k < 2 ^ 31) (s : Shuffling) :
    ∀ x ∈ roundsSeeks a k rand m s, x.Hits k := by
  induction m generalizing s with
  | zero =>
    intro x hx
    cases hx
  | succ m ih =>
    intro x hx
    have hsmaller : ∀ i, i ≤ m + 1 → i * k < 2 ^ 31 := fun i hi =>
      lt_of_le_of_lt (Nat.mul_le_mul_right k hi) hint
    unfold roundsSeeks at hx
    rcases List.mem_append.mp hx with hx | hx
    · obtain ⟨f, rfl | rfl⟩ := record_of_mem_exchangeSeeks hx
      · exact seekRecord_hits_iff.mpr hint
      · have hj : (rand (m + 1) : ℕ) % (m + 1) < m + 1 := Nat.mod_lt _ (Nat.succ_pos m)
        exact seekRecord_hits_iff.mpr (hsmaller _ hj.le)
    · split at hx
      · cases hx
      · exact ih (hsmaller m (Nat.le_succ m)) _ x hx

/-- **The offsets of a shuffle.** Its first round is for the last record, whatever the file. -/
theorem roundsSeeks_hits_iff (s : Shuffling) :
    (∀ x ∈ roundsSeeks a k rand m s, x.Hits k) ↔ m * k < 2 ^ 31 := by
  constructor
  · intro hall
    cases m with
    | zero => omega
    | succ m =>
      refine seekRecord_hits_iff.mp (hall (seekRecord k (m + 1) s.file) ?_)
      unfold roundsSeeks
      exact List.mem_append_left _ List.mem_cons_self
  · intro hint
    exact roundsSeeks_hits hint s

/-! ## The sorts -/

/-- A comparison seeks the records of the two indices only. -/
theorem record_of_mem_compareSeeks {x : Seek} (hx : x ∈ compareSeeks c t k e f) :
    ∃ f, x = seekRecord k e f := by
  unfold compareSeeks at hx
  rcases List.mem_cons.mp hx with rfl | hx
  · exact ⟨_, rfl⟩
  split at hx
  · cases hx
  split at hx
  · cases hx
  split at hx
  · rw [List.mem_singleton.mp hx]
    exact ⟨_, rfl⟩
  · cases hx

/-- A read that does not fail has found the record in the file. -/
theorem readRecord_ok {record : List UInt8} {f' : ByteFile UInt8} (hk : 1 ≤ k)
    (h : readRecord t k f = .ok (record, f')) :
    record.length = k ∧ f'.bytes = f.bytes ∧ f'.offset = f.offset + k ∧
      f.offset + k ≤ f.bytes.length := by
  unfold readRecord at h
  simp only at h
  split at h
  · cases h
  · next hlength =>
    have hrecord : (f.read k).1.length = k := by simpa using hlength
    cases h
    refine ⟨hrecord, rfl, ?_, ?_⟩
    · exact congrArg (f.offset + ·) hrecord
    · simp only [ByteFile.read, List.length_take, List.length_drop] at hrecord
      omega

/-- A write inside the file leaves it as long as it was. -/
theorem writeRecord_ok {record : List UInt8} {f' : ByteFile UInt8} (hk : 1 ≤ k)
    (hrecord : record.length = k) (hinside : f.offset + k ≤ f.bytes.length)
    (h : writeRecord t k record f = .ok f') :
    f'.bytes.length = f.bytes.length ∧ f'.offset = f.offset + k := by
  have hne : record ≠ [] := by
    rintro rfl
    simp only [List.length_nil] at hrecord
    omega
  have hlength := ByteFile.length_write f hne
  have hoffset : (f.write record).2.offset = f.offset + record.length := by
    unfold ByteFile.write
    rw [if_neg (by simp [hne])]
  unfold writeRecord at h
  simp only at h
  split at h
  · cases h
  · cases h
    omega

/-- **A round that does not fail** has read two records, and the file is as long as it was. -/
theorem compareNeighbours_ok {f' : ByteFile UInt8} {change' : Bool} (hk : 1 ≤ k)
    (hint : e * k < 2 ^ 31) (h : compareNeighbours c t k e change f = .ok (f', change')) :
    (e + 2) * k ≤ f.bytes.length ∧ f'.bytes.length = f.bytes.length := by
  unfold compareNeighbours at h
  rw [intMul_eq hint, ByteFile.seek_nat] at h
  simp only [bind, Except.bind] at h
  split at h
  · cases h
  next r1 hread1 =>
  obtain ⟨record1, f1⟩ := r1
  obtain ⟨hrecord1, hbytes1, hoffset1, hinside1⟩ := readRecord_ok hk hread1
  simp only at h hbytes1 hoffset1 hinside1
  split at h
  · cases h
  next r2 hread2 =>
  obtain ⟨record2, f2⟩ := r2
  obtain ⟨hrecord2, hbytes2, hoffset2, hinside2⟩ := readRecord_ok hk hread2
  rw [hbytes1, hoffset1] at hinside2
  have hheld : (e + 2) * k ≤ f.bytes.length := by
    rw [Nat.add_mul]
    omega
  refine ⟨hheld, ?_⟩
  simp only at h
  split at h
  · split at h
    · cases h
    next f3 hwrite3 =>
    split at h
    · cases h
    next f4 hwrite4 =>
    rw [ByteFile.seek_nat] at hwrite3
    have hlength2 : f2.bytes.length = f.bytes.length := by rw [hbytes2, hbytes1]
    obtain ⟨hlength3, hoffset3⟩ := writeRecord_ok hk hrecord2 (by simp only; omega) hwrite3
    simp only at hlength3 hoffset3
    obtain ⟨hlength4, -⟩ := writeRecord_ok hk hrecord1 (by omega) hwrite4
    cases h
    omega
  · cases h
    rw [hbytes2, hbytes1]

/-- What the rounds of one pass rely on: a record that the file holds has an offset that fits. -/
def OffsetsFit (k n length : ℕ) : Prop :=
  ∀ i, i + 2 ≤ n → (i + 1) * k ≤ length → i * k < 2 ^ 31

/-- The rounds of a pass from record `e` on, which the file holds if it is not the first. The
induction is on the iterations left. -/
theorem passSeeks_hits {length : ℕ} (change : Bool) (hk : 1 ≤ k)
    (hfit : OffsetsFit k n length) (hm : e + m < n)
    (hheld : e = 0 ∨ (e + 1) * k ≤ length) (hlength : f.bytes.length = length) :
    (∀ x ∈ passSeeks c t k m e change f, x.Hits k) ∧
      ∀ f' change', pass c t k m e change f = .ok (f', change') →
        f'.bytes.length = length := by
  induction m generalizing e change f with
  | zero =>
    constructor
    · intro x hx
      cases hx
    · intro f' change' hpass
      cases hpass
      exact hlength
  | succ m ih =>
    have hint : e * k < 2 ^ 31 := by
      rcases hheld with rfl | hheld
      · omega
      · exact hfit e (by omega) hheld
    have hfirst : ∀ x ∈ compareSeeks c t k e f, x.Hits k := by
      intro x hx
      obtain ⟨f, rfl⟩ := record_of_mem_compareSeeks hx
      exact seekRecord_hits_iff.mpr hint
    cases hcompare : compareNeighbours c t k e change f with
    | error exit =>
      constructor
      · intro x hx
        unfold passSeeks at hx
        rw [hcompare, List.append_nil] at hx
        exact hfirst x hx
      · intro f' change' hpass
        unfold pass at hpass
        rw [hcompare] at hpass
        cases hpass
    | ok r =>
      obtain ⟨f₁, change₁⟩ := r
      obtain ⟨hnext, hsame⟩ := compareNeighbours_ok hk hint hcompare
      obtain ⟨hseeks, hfinal⟩ := ih (e := e + 1) (f := f₁) change₁ (by omega)
        (Or.inr (hlength ▸ hnext)) (hsame.trans hlength)
      constructor
      · intro x hx
        unfold passSeeks at hx
        rw [hcompare] at hx
        rcases List.mem_append.mp hx with hx | hx
        · exact hfirst x hx
        · exact hseeks x hx
      · intro f' change' hpass
        unfold pass at hpass
        rw [hcompare] at hpass
        exact hfinal f' change' hpass

/-- The passes over the first `m` records. The induction is on the passes left. -/
theorem passesSeeks_hits {length : ℕ} (hk : 1 ≤ k) (hfit : OffsetsFit k n length) (hm : m ≤ n)
    (hlength : f.bytes.length = length) : ∀ x ∈ passesSeeks c t k m f, x.Hits k := by
  induction m generalizing f with
  | zero =>
    intro x hx
    cases hx
  | succ m ih =>
    obtain ⟨hseeks, hfinal⟩ := passSeeks_hits (c := c) (t := t) false hk hfit
      (e := 0) (m := m) (by omega) (Or.inl rfl) hlength
    intro x hx
    unfold passesSeeks at hx
    rcases List.mem_append.mp hx with hx | hx
    · exact hseeks x hx
    split at hx
    · cases hx
    next f₁ change₁ hpass =>
    split at hx
    · obtain ⟨o, hseek⟩ := ByteFile.exists_seek f₁ 0
      have hlength₁ : (f₁.seek 0).bytes.length = length := by
        rw [hseek]
        exact hfinal f₁ change₁ hpass
      exact ih (by omega) hlength₁ x hx
    · cases hx

/-- The round after `m` that did not fail begins with its call. -/
theorem mem_passSeeks {r : ℕ} {f' : ByteFile UInt8} {change' : Bool}
    (h : pass c t k m e change f = .ok (f', change')) :
    seekRecord k (e + m) f' ∈ passSeeks c t k (m + (r + 1)) e change f := by
  induction m generalizing e change f with
  | zero =>
    cases h
    rw [Nat.zero_add]
    unfold passSeeks
    exact List.mem_append_left _ List.mem_cons_self
  | succ m ih =>
    unfold pass at h
    cases hcompare : compareNeighbours c t k e change f with
    | error exit =>
      rw [hcompare] at h
      cases h
    | ok next =>
      rw [hcompare] at h
      have hmem := ih h
      rw [show m + 1 + (r + 1) = m + (r + 1) + 1 by omega]
      rw [show e + (m + 1) = e + 1 + m by omega]
      unfold passSeeks
      rw [hcompare]
      exact List.mem_append_right _ hmem

/-- A pass over records that the file holds, at offsets that fit, does not fail. -/
theorem pass_held (c : CharSign) (t : Texts) {bytes : List UInt8} (hk : 1 ≤ k)
    (hheld : (m + 1) * k ≤ bytes.length) (hint : ∀ i, i < m → i * k < 2 ^ 31) :
    ∃ f change, pass c t k m 0 false { bytes := bytes, offset := 0 } = .ok (f, change) := by
  have hlength : ∀ r ∈ records bytes (m + 1) k, r.length = k :=
    fun r hr => length_of_mem_records hheld hr
  have hfile := layout_records (k := k) bytes (m + 1) 0
  have hsize := length_records (k := k) bytes (m + 1)
  cases hrecords : records bytes (m + 1) k with
  | nil =>
    rw [hrecords] at hsize
    cases hsize
  | cons x post =>
    rw [hrecords] at hlength hfile hsize
    obtain ⟨o, hpass⟩ := pass_layout c t (bytes.drop ((m + 1) * k)) hk
      (show ∀ r ∈ ([] : List (List UInt8)), r.length = k from List.forall_mem_nil _)
      (hlength x List.mem_cons_self)
      (fun r hr => hlength r (List.mem_cons_of_mem x hr)) (m := m)
      (by simp only [List.length_cons] at hsize; omega)
      (fun i hi => hint i (by simp only [List.length_nil] at hi; omega)) false 0
    rw [List.nil_append, List.length_nil, hfile] at hpass
    exact ⟨_, _, hpass⟩

/-- **The first offset that does not fit is reached**, by way of the records in front of it. -/
theorem exists_not_hits {bytes : List UInt8} (hk : 1 ≤ k) (hi : i + 2 ≤ n)
    (hheld : (i + 1) * k ≤ bytes.length) (hover : ¬ i * k < 2 ^ 31) :
    ∃ x ∈ passesSeeks c t k n { bytes := bytes, offset := 0 }, ¬ x.Hits k := by
  obtain ⟨m, hm, hfirst⟩ : ∃ m, ¬ m * k < 2 ^ 31 ∧ ∀ i, i < m → i * k < 2 ^ 31 := by
    have hex : ∃ m, ¬ m * k < 2 ^ 31 := ⟨i, hover⟩
    exact ⟨Nat.find hex, Nat.find_spec hex, fun j hj => not_not.mp (Nat.find_min hex hj)⟩
  have hmi : m ≤ i := by
    by_contra hlt
    exact hover (hfirst i (by omega))
  have hheld' : (m + 1) * k ≤ bytes.length :=
    (Nat.mul_le_mul_right k (Nat.succ_le_succ hmi)).trans hheld
  obtain ⟨f, change, hpass⟩ := pass_held c t hk hheld' hfirst
  obtain ⟨r, rfl⟩ : ∃ r, n = m + (r + 1) + 1 := ⟨n - m - 2, by omega⟩
  have hmem := mem_passSeeks (r := r) hpass
  rw [Nat.zero_add] at hmem
  refine ⟨seekRecord k m f, ?_, fun hhits => hm (seekRecord_hits_iff.mp hhits)⟩
  unfold passesSeeks
  exact List.mem_append_left _ hmem

/-- **The offsets of a sort.** -/
theorem passesSeeks_hits_iff (c : CharSign) (t : Texts) (bytes : List UInt8) (hk : 1 ≤ k) :
    (∀ x ∈ passesSeeks c t k n { bytes := bytes, offset := 0 }, x.Hits k) ↔
      OffsetsFit k n bytes.length := by
  constructor
  · intro hall i hi hheld
    by_contra hover
    obtain ⟨x, hx, hmiss⟩ := exists_not_hits hk hi hheld hover
    exact hmiss (hall x hx)
  · intro hfit
    exact passesSeeks_hits hk hfit (le_refl n) rfl

/-- **The offsets of the records.** In every round of `bSortSys` and `bSortLib` the offset is the
product exactly when it fits an int for every record that the file holds, of those a round is
for; in every round of `shuffleSys` and `shuffleLib`, exactly when it fits for the last record.
SOURCE: cw02/zad1/bsort.c:20-55, cw02/zad1/bsort.c:80-120, cw02/zad1/shuffler.c:30-53,
cw02/zad1/shuffler.c:80-113 -/
theorem offsets_iff (bytes : List UInt8) {recordAmount recordSize : ℕ} (size_pos : 1 ≤ recordSize)
    (c : CharSign) (record1 record2 : List UInt8) (rand : Rand) :
    ((∀ x ∈ bSortSysSeeks c bytes recordAmount recordSize, x.Hits recordSize) ↔
        ∀ i, i + 2 ≤ recordAmount → (i + 1) * recordSize ≤ bytes.length →
          i * recordSize < 2 ^ 31) ∧
      ((∀ x ∈ bSortLibSeeks c bytes recordAmount recordSize, x.Hits recordSize) ↔
        ∀ i, i + 2 ≤ recordAmount → (i + 1) * recordSize ≤ bytes.length →
          i * recordSize < 2 ^ 31) ∧
      ((∀ x ∈ shuffleSysSeeks record1 record2 rand bytes recordAmount recordSize,
          x.Hits recordSize) ↔ (recordAmount - 1) * recordSize < 2 ^ 31) ∧
      ((∀ x ∈ shuffleLibSeeks record1 record2 rand bytes recordAmount recordSize,
          x.Hits recordSize) ↔ (recordAmount - 1) * recordSize < 2 ^ 31) := by
  refine ⟨?_, ?_, ?_, ?_⟩
  · exact passesSeeks_hits_iff c sysTexts bytes size_pos
  · exact passesSeeks_hits_iff c libTexts bytes size_pos
  · exact roundsSeeks_hits_iff _
  · exact roundsSeeks_hits_iff _

/-- Four records of two bytes. -/
theorem offsets_iff_four :
    ((∀ x ∈ bSortSysSeeks .signed [4, 0, 3, 0, 2, 0, 1, 0] 4 2, x.Hits 2) ↔
        ∀ i, i + 2 ≤ 4 → (i + 1) * 2 ≤ [(4 : UInt8), 0, 3, 0, 2, 0, 1, 0].length →
          i * 2 < 2 ^ 31) ∧
      ((∀ x ∈ bSortLibSeeks .signed [4, 0, 3, 0, 2, 0, 1, 0] 4 2, x.Hits 2) ↔
        ∀ i, i + 2 ≤ 4 → (i + 1) * 2 ≤ [(4 : UInt8), 0, 3, 0, 2, 0, 1, 0].length →
          i * 2 < 2 ^ 31) ∧
      ((∀ x ∈ shuffleSysSeeks [0, 0] [0, 0] (fun _ => 0) [4, 0, 3, 0, 2, 0, 1, 0] 4 2,
          x.Hits 2) ↔ (4 - 1) * 2 < 2 ^ 31) ∧
      ((∀ x ∈ shuffleLibSeeks [0, 0] [0, 0] (fun _ => 0) [4, 0, 3, 0, 2, 0, 1, 0] 4 2,
          x.Hits 2) ↔ (4 - 1) * 2 < 2 ^ 31) :=
  offsets_iff [4, 0, 3, 0, 2, 0, 1, 0] (by decide) .signed [0, 0] [0, 0] fun _ => 0

/-- Three records of `2 ^ 30` bytes: the third is sought at `-2 ^ 31`. -/
theorem shuffle_offset_wrong :
    ¬ ∀ x ∈ shuffleSysSeeks [] [] (fun _ => 0) [] 3 (2 ^ 30), x.Hits (2 ^ 30) := by
  unfold shuffleSysSeeks
  rw [roundsSeeks_hits_iff]
  decide

end SystemyOperacyjne.RecordSort
