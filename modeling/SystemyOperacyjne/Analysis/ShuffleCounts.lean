import SystemyOperacyjne.Analysis.ShuffleOrders

/-!
# Shuffling with a wrong count

The count of records comes from the command line and the file has a length of its own. With a
count that the file does not hold `shuffleLib` stops at its first read. `shuffleSys` writes what
its buffer held before: its first write, behind the end, makes the file longer, and no later one
makes it shorter (`shuffle_counts_iff`).
-/

set_option autoImplicit false

namespace SystemyOperacyjne.RecordSort

open Library

variable {k n i j : ℕ} {record1 record2 : List UInt8}

/-- An exit leaves the file as it was, and a return has permuted the first `n` records. -/
def KeepsRecords (bytes : List UInt8) (n k : ℕ) : Except Exit (List UInt8) → Prop
  | .error e => e.file = bytes
  | .ok file => ∃ l : List (List UInt8),
    l.Perm (records bytes n k) ∧ file = l.flatten ++ bytes.drop (n * k)

/-- Whatever the file, one whose records are permuted is as long as it was. -/
theorem KeepsRecords.length_eq {bytes file : List UInt8} (h : KeepsRecords bytes n k (.ok file)) :
    file.length = bytes.length := by
  obtain ⟨l, hperm, rfl⟩ := h
  have hflatten : l.flatten.length = (records bytes n k).flatten.length := by
    rw [List.length_flatten, List.length_flatten]
    exact (hperm.map List.length).sum_nat
  have hbytes : (records bytes n k).flatten ++ bytes.drop (n * k) = bytes := records_append
  rw [List.length_append, hflatten, ← List.length_append, hbytes]

/-! ## Counts that the file holds -/

/-- With a count that the file holds, either function permutes the records. -/
theorem shuffle_keeps (a : Access) (rand : Rand) {bytes : List UInt8} (hk : 1 ≤ k)
    (hheld : n ≤ 1 ∨ n * k ≤ bytes.length) (hint : ∀ i, i < n → i * k < 2 ^ 31)
    (h1 : record1.length = k) (h2 : record2.length = k) :
    KeepsRecords bytes n k (shuffle a record1 record2 rand (some bytes) n k) := by
  by_cases hn : n ≤ 1
  · have hround : n - 1 = 0 := by omega
    unfold shuffle
    simp only [hround, rounds]
    exact ⟨records bytes n k, List.Perm.refl _, records_append.symm⟩
  · have hle : n * k ≤ bytes.length := by
      rcases hheld with hle | hle
      · exact absurd hle hn
      · exact hle
    have hlength := length_records (k := k) bytes n
    obtain ⟨o, r1, r2, hrounds⟩ := rounds_layout a rand hk (bytes.drop (n * k)) (m := n - 1)
      (fun r hr => length_of_mem_records hle hr) (by omega) (by rwa [hlength]) h1 h2 0
    rw [layout_records] at hrounds
    unfold shuffle
    simp only [hrounds]
    exact ⟨_, exchanges_perm (partner rand) (n - 1) _, rfl⟩

/-! ## Counts beyond the file -/

/-- A record that the file does not hold is not read. -/
theorem readRecord_short (t : Texts) (hk : 1 ≤ k) {f : ByteFile UInt8}
    (hshort : f.bytes.length < f.offset + k) :
    readRecord t k f = .error ⟨t.readError, f.bytes⟩ := by
  have hread : (f.read k).1.length ≠ k := by
    simp only [ByteFile.read, List.length_take, List.length_drop]
    omega
  unfold readRecord
  exact if_pos hread

/-- The functions of `stdio.h` stop at the first record, before anything is written. -/
theorem shuffleLib_short (rand : Rand) {bytes : List UInt8} (hk : 1 ≤ k) (hn : 1 < n)
    (hshort : bytes.length < n * k) (hint : (n - 1) * k < 2 ^ 31) :
    shuffle .lib record1 record2 rand (some bytes) n k = .error ⟨libTexts.readError, bytes⟩ := by
  obtain ⟨m, rfl⟩ : ∃ m, n = m + 1 + 1 := ⟨n - 2, by omega⟩
  rw [Nat.add_mul (m + 1) 1 k, Nat.one_mul] at hshort
  rw [Nat.add_sub_cancel] at hint
  have hread := readRecord_short libTexts hk (f := { bytes := bytes, offset := (m + 1) * k }) hshort
  unfold shuffle
  simp only [Nat.add_sub_cancel]
  unfold rounds exchangeRecords Access.read
  rw [intMul_eq hint, ByteFile.seek_nat]
  simp only [hread, bind, Except.bind]
  rfl

/-- Reading without looking fills the buffer, and leaves the file as it is. -/
theorem Access.read_sys {buffer : List UInt8} (hbuffer : buffer.length = k)
    (f : ByteFile UInt8) : ∃ record o, record.length = k ∧
      Access.sys.read k buffer f = .ok (record, { bytes := f.bytes, offset := o }) := by
  refine ⟨_, _, ?_, rfl⟩
  simp only [List.length_append, List.length_take, List.length_drop, hbuffer]
  omega

/-- Writing a record at an offset does not fail. -/
theorem writeRecord_extends (t : Texts) {record : List UInt8} (hk : 1 ≤ k)
    (hrecord : record.length = k) (f : ByteFile UInt8) : ∃ f', writeRecord t k record f = .ok f' ∧
      f'.bytes.length = max f.bytes.length (f.offset + k) := by
  have hne : record ≠ [] := by
    rintro rfl
    simp only [List.length_nil] at hrecord
    omega
  have hcount : (f.write record).1 = k := by
    unfold ByteFile.write
    rw [if_neg (by simp [hne])]
    exact hrecord
  refine ⟨(f.write record).2, ?_, ?_⟩
  · unfold writeRecord
    simp only
    rw [if_neg (by simp [hcount])]
  · rw [ByteFile.length_write f hne, hrecord]

/-- **A round of `shuffleSys` on any file** returns, and afterwards the file reaches to the end of
record `i`. -/
theorem exchangeRecords_sys (hk : 1 ≤ k) (hint : i * k < 2 ^ 31) (s : Shuffling)
    (h1 : s.record1.length = k) (h2 : s.record2.length = k) :
    ∃ s', exchangeRecords .sys k i j s = .ok s' ∧ s'.record1.length = k ∧ s'.record2.length = k ∧
      s.file.bytes.length ≤ s'.file.bytes.length ∧ (i + 1) * k ≤ s'.file.bytes.length := by
  have hseek1 : s.file.seek (intMul i k) = { bytes := s.file.bytes, offset := i * k } := by
    rw [intMul_eq hint, ByteFile.seek_nat]
  obtain ⟨r1, o1, hr1, hread1⟩ := Access.read_sys h1 { bytes := s.file.bytes, offset := i * k }
  obtain ⟨o2, hseek2⟩ := ByteFile.exists_seek { bytes := s.file.bytes, offset := o1 } (intMul j k)
  obtain ⟨r2, o3, hr2, hread2⟩ := Access.read_sys h2 { bytes := s.file.bytes, offset := o2 }
  have hseek3 : ByteFile.seek { bytes := s.file.bytes, offset := o3 } (intMul i k) =
      { bytes := s.file.bytes, offset := i * k } := by
    rw [intMul_eq hint, ByteFile.seek_nat]
  obtain ⟨f4, hwrite4, hlength4⟩ := writeRecord_extends Access.sys.texts hk hr2
    { bytes := s.file.bytes, offset := i * k }
  obtain ⟨o5, hseek5⟩ := ByteFile.exists_seek f4 (intMul j k)
  obtain ⟨f6, hwrite6, hlength6⟩ := writeRecord_extends Access.sys.texts hk hr1
    { bytes := f4.bytes, offset := o5 }
  refine ⟨{ file := f6, record1 := r1, record2 := r2 }, ?_, hr1, hr2, ?_⟩
  · unfold exchangeRecords
    simp only [hseek1, hread1, hseek2, hread2, hseek3, hwrite4, hseek5, hwrite6, bind, Except.bind,
      pure, Except.pure]
  · rw [Nat.add_mul, Nat.one_mul]
    simp only at hlength4 hlength6 ⊢
    omega

/-- **The rounds on any file.** The induction is on the rounds left. -/
theorem rounds_sys (rand : Rand) (hk : 1 ≤ k) {m : ℕ} (hint : ∀ i, i ≤ m → i * k < 2 ^ 31)
    (s : Shuffling) (h1 : s.record1.length = k) (h2 : s.record2.length = k) :
    ∃ s', rounds .sys k rand m s = .ok s' ∧ s.file.bytes.length ≤ s'.file.bytes.length ∧
      (1 ≤ m → (m + 1) * k ≤ s'.file.bytes.length) := by
  induction m generalizing s with
  | zero => exact ⟨s, rfl, le_refl _, fun h => absurd h (by omega)⟩
  | succ m ih =>
    obtain ⟨s₁, hround, h1', h2', hle, hreach⟩ := exchangeRecords_sys
      (j := (rand (m + 1) : ℕ) % (m + 1)) hk (hint (m + 1) (le_refl _)) s h1 h2
    obtain ⟨s₂, hrest, hle', -⟩ := ih (fun i hi => hint i (by omega)) s₁ h1' h2'
    refine ⟨s₂, ?_, by omega, fun _ => by omega⟩
    simp only [rounds, hround, bind, Except.bind]
    exact hrest

/-- With a count that the file does not hold, `shuffleSys` returns with a longer file. -/
theorem shuffleSys_short (rand : Rand) {bytes : List UInt8} (hk : 1 ≤ k) (hn : 1 < n)
    (hshort : bytes.length < n * k) (hint : ∀ i, i < n → i * k < 2 ^ 31)
    (h1 : record1.length = k) (h2 : record2.length = k) :
    ∃ file, shuffle .sys record1 record2 rand (some bytes) n k = .ok file ∧
      bytes.length < file.length := by
  obtain ⟨s, hrounds, -, hreach⟩ := rounds_sys rand hk (m := n - 1) (fun i hi => hint i (by omega))
    { file := { bytes := bytes, offset := 0 }, record1 := record1, record2 := record2 } h1 h2
  refine ⟨s.file.bytes, ?_, ?_⟩
  · unfold shuffle
    simp only [hrounds]
    rfl
  · have hreach' := hreach (by omega)
    rw [Nat.sub_add_cancel hn.le] at hreach'
    omega

/-- **Shuffling with any count**: `shuffleLib` exits with the file as it was or permutes the
records; `shuffleSys` does so exactly when the file holds as many records as it is told, or there
is no round.
SOURCE: cw02/zad1/shuffler.c:26-53, cw02/zad1/shuffler.c:77-113 -/
theorem shuffle_counts_iff (bytes : List UInt8) {recordAmount recordSize : ℕ}
    (size_pos : 1 ≤ recordSize) (offsets : ∀ i, i < recordAmount → i * recordSize < 2 ^ 31)
    {record1 record2 : List UInt8} (buffer1 : record1.length = recordSize)
    (buffer2 : record2.length = recordSize) (rand : Rand) :
    KeepsRecords bytes recordAmount recordSize
        (shuffleLib record1 record2 rand (some bytes) recordAmount recordSize) ∧
      (KeepsRecords bytes recordAmount recordSize
          (shuffleSys record1 record2 rand (some bytes) recordAmount recordSize) ↔
        recordAmount ≤ 1 ∨ recordAmount * recordSize ≤ bytes.length) := by
  by_cases hheld : recordAmount ≤ 1 ∨ recordAmount * recordSize ≤ bytes.length
  · constructor
    · exact shuffle_keeps .lib rand size_pos hheld offsets buffer1 buffer2
    · exact iff_of_true (shuffle_keeps .sys rand size_pos hheld offsets buffer1 buffer2) hheld
  · have hn : 1 < recordAmount := by omega
    have hshort : bytes.length < recordAmount * recordSize := by omega
    constructor
    · unfold shuffleLib
      rw [shuffleLib_short rand size_pos hn hshort (offsets _ (by omega))]
      rfl
    · refine iff_of_false ?_ hheld
      obtain ⟨file, hfile, hlonger⟩ := shuffleSys_short rand size_pos hn hshort offsets buffer1
        buffer2
      unfold shuffleSys
      rw [hfile]
      intro hkeeps
      have hlength := hkeeps.length_eq
      omega

/-- Three bytes for two records of two. -/
theorem shuffle_counts_iff_three :
    KeepsRecords [1, 2, 3] 2 2 (shuffleLib [0, 0] [0, 0] (fun _ => 0) (some [1, 2, 3]) 2 2) ∧
      (KeepsRecords [1, 2, 3] 2 2 (shuffleSys [0, 0] [0, 0] (fun _ => 0) (some [1, 2, 3]) 2 2) ↔
        2 ≤ 1 ∨ 2 * 2 ≤ [(1 : UInt8), 2, 3].length) := by
  apply shuffle_counts_iff
  · decide
  · intro i hi
    omega
  · rfl
  · rfl

/-- One record, and a count of two: its byte comes out twice, once as the buffer's. -/
theorem shuffle_not_kept :
    ¬ KeepsRecords [1] 2 1 (shuffleSys [0] [0] (fun _ => 0) (some [1]) 2 1) := by
  intro hkeeps
  have hrun : shuffleSys [0] [0] (fun _ => 0) (some [1]) 2 1 = .ok [0, 1] := by
    decide +kernel
  rw [hrun] at hkeeps
  have hlength := hkeeps.length_eq
  simp only [List.length_cons, List.length_nil] at hlength
  omega

end SystemyOperacyjne.RecordSort
