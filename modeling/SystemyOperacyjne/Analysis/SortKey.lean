import SystemyOperacyjne.Analysis.InFileSort

/-!
# The sort key as an unsigned number

Where plain `char` is signed, a first byte from 128 on is taken for a negative number, so its
record comes in front of all the others. The first bytes then ascend as unsigned numbers only
if the two kinds do not occur together (`bSort_unsigned_iff`).
-/

set_option autoImplicit false

namespace SystemyOperacyjne.RecordSort

open Library

variable {k : ℕ} {l : List (List UInt8)}

/-- The first byte of a record, as `unsigned char`. -/
def firstByte (record : List UInt8) : ℕ :=
  (record.headD 0).toNat

/-- A first byte is a byte. -/
theorem firstByte_lt (r : List UInt8) : firstByte r < 256 :=
  UInt8.toNat_lt _

/-- The first bytes of the records ascend as `unsigned char`. -/
def AscendsUnsigned (l : List (List UInt8)) : Prop :=
  l.Pairwise fun x y => firstByte x ≤ firstByte y

/-- All first bytes are below 128, or none is. -/
def OneHalf (l : List (List UInt8)) : Prop :=
  (∀ r ∈ l, firstByte r < 128) ∨ ∀ r ∈ l, 128 ≤ firstByte r

/-- A signed `char` is negative from 128 on. -/
theorem signed_key (r : List UInt8) : CharSign.key .signed r =
    if firstByte r < 128 then (firstByte r : ℤ) else firstByte r - 256 := by
  have hlt := firstByte_lt r
  have hvalue : CharSign.key .signed r = Int.bmod (firstByte r) 256 := rfl
  rw [hvalue, Int.bmod_eq_emod, Int.emod_eq_of_lt (by omega) (by omega)]
  split <;> split <;> omega

/-- **Sorted as signed numbers, the first bytes ascend as unsigned numbers** exactly when all of
them are in one half of the range. -/
theorem ascendsUnsigned_iff
    (h : l.Pairwise fun x y => CharSign.key .signed x ≤ CharSign.key .signed y) :
    AscendsUnsigned l ↔ OneHalf l := by
  simp only [signed_key] at h
  constructor
  · intro hascends
    have hsame : ∀ x ∈ l, ∀ y ∈ l, firstByte x < 128 ↔ firstByte y < 128 := by
      have hsame : l.Pairwise fun x y => firstByte x < 128 ↔ firstByte y < 128 := by
        apply (h.and hascends).imp
        intro x y ⟨hkey, hle⟩
        have hx := firstByte_lt x
        have hy := firstByte_lt y
        split at hkey <;> split at hkey <;> omega
      apply hsame.forall_of_forall_of_flip
      · intro x _
        exact Iff.rfl
      · exact hsame.imp fun hxy => hxy.symm
    cases l with
    | nil => exact .inl (List.forall_mem_nil _)
    | cons r l =>
      by_cases hr : firstByte r < 128
      · exact .inl fun s hs => (hsame r List.mem_cons_self s hs).mp hr
      · exact .inr fun s hs => Nat.le_of_not_lt fun hlt =>
          hr ((hsame s hs r List.mem_cons_self).mp hlt)
  · intro hhalf
    apply h.imp_of_mem
    intro x y hx hy hkey
    rcases hhalf with hlow | hhigh
    · rw [if_pos (hlow x hx), if_pos (hlow y hy)] at hkey
      omega
    · rw [if_neg (hhigh x hx).not_gt, if_neg (hhigh y hy).not_gt] at hkey
      omega

/-- The sorted file is made of the sorted records. -/
theorem records_sortedFile (c : CharSign) {bytes : List UInt8} {n : ℕ}
    (h : n * k ≤ bytes.length) :
    records (sortedFile c bytes n k) n k =
      (records bytes n k).mergeSort fun x y => c.key x ≤ c.key y := by
  have hlength : ∀ r ∈ (records bytes n k).mergeSort fun x y => c.key x ≤ c.key y,
      r.length = k := by
    intro r hr
    exact length_of_mem_records h (List.mem_mergeSort.mp hr)
  have hcount : ((records bytes n k).mergeSort fun x y => c.key x ≤ c.key y).length = n := by
    simp [records]
  have hflatten := records_flatten hlength (bytes.drop (n * k))
  rw [hcount] at hflatten
  exact hflatten

/-- What the sort leaves ascends as unsigned numbers exactly when the first bytes were in one half
of the range. -/
theorem sortedFile_ascends_iff {bytes : List UInt8} {n : ℕ} (h : n * k ≤ bytes.length) :
    AscendsUnsigned (records (sortedFile .signed bytes n k) n k) ↔
      OneHalf (records bytes n k) := by
  rw [records_sortedFile .signed h]
  rw [ascendsUnsigned_iff (StableSort.mergeSort (CharSign.key .signed) _).sorted]
  simp only [OneHalf, List.mem_mergeSort]

/-- **The sort key**. Where plain `char` is signed, the first bytes of the records ascend as
unsigned numbers after the sort exactly when all of them are below 128, or none is.
SOURCE: cw02/zad1/bsort.c:15-55, cw02/zad1/bsort.c:76-120, cw02/Zadanie2:13 -/
theorem bSort_unsigned_iff (bytes : List UInt8) (recordAmount recordSize : ℕ)
    (size_pos : 1 ≤ recordSize) (holds : recordAmount * recordSize ≤ bytes.length)
    (offsets : ∀ i, i + 1 < recordAmount → i * recordSize < 2 ^ 31) :
    ((∃ file, bSortSys .signed (some bytes) recordAmount recordSize = .ok file ∧
        AscendsUnsigned (records file recordAmount recordSize)) ↔
      OneHalf (records bytes recordAmount recordSize)) ∧
    ((∃ file, bSortLib .signed (some bytes) recordAmount recordSize = .ok file ∧
        AscendsUnsigned (records file recordAmount recordSize)) ↔
      OneHalf (records bytes recordAmount recordSize)) := by
  have hiff (t : Texts) :
      (∃ file, bSort t .signed (some bytes) recordAmount recordSize = .ok file ∧
        AscendsUnsigned (records file recordAmount recordSize)) ↔
      OneHalf (records bytes recordAmount recordSize) := by
    rw [bSort_eq t .signed size_pos holds offsets, ← sortedFile_ascends_iff holds]
    constructor
    · rintro ⟨file, heq, hascends⟩
      cases heq
      exact hascends
    · intro hascends
      exact ⟨_, rfl, hascends⟩
  exact ⟨hiff sysTexts, hiff libTexts⟩

/-- Two records with first bytes below 128. -/
theorem bSort_unsigned_iff_two :
    ((∃ file, bSortSys .signed (some [70, 1, 46, 2]) 2 2 = .ok file ∧
        AscendsUnsigned (records file 2 2)) ↔ OneHalf (records [70, 1, 46, 2] 2 2)) ∧
    ((∃ file, bSortLib .signed (some [70, 1, 46, 2]) 2 2 = .ok file ∧
        AscendsUnsigned (records file 2 2)) ↔ OneHalf (records [70, 1, 46, 2] 2 2)) :=
  bSort_unsigned_iff [70, 1, 46, 2] 2 2 (by decide) (by decide) fun i hi => by omega

/-- The byte 200 is sorted in front of 46. -/
theorem bSort_not_unsigned : ¬ ∃ file, bSortSys .signed (some [46, 200]) 2 1 = .ok file ∧
    AscendsUnsigned (records file 2 1) := by
  have hrun : bSortSys .signed (some [46, 200]) 2 1 = .ok [200, 46] := by decide
  rintro ⟨file, hfile, hascends⟩
  rw [hrun] at hfile
  cases hfile
  revert hascends
  unfold AscendsUnsigned
  decide

end SystemyOperacyjne.RecordSort
