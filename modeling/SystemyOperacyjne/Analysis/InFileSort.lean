import SystemyOperacyjne.Library.StableSort
import SystemyOperacyjne.Model.RecordSort

/-!
# The file after the sort

A file of records is the records one after the other, and what follows them. Seeking, reading
twice and writing twice exchanges two neighbours in the list of records, so the inner loop is
`carry` and the outer loop is `bubble`, on the first bytes as keys.
-/

set_option autoImplicit false

namespace SystemyOperacyjne.RecordSort

open Library

variable {c : CharSign} {t : Texts} {k : ℕ} {rest : List UInt8}
  {pre post : List (List UInt8)} {x y : List UInt8}

/-- The key of a record: its first byte as a `char`. -/
def CharSign.key (c : CharSign) (record : List UInt8) : ℤ :=
  c.value (record.headD 0)

/-- The first `n` records of a file. -/
def records (bytes : List UInt8) (n k : ℕ) : List (List UInt8) :=
  (List.range n).map fun i => (bytes.drop (i * k)).take k

/-- A file of records. -/
def layout (l : List (List UInt8)) (rest : List UInt8) (offset : ℕ) : ByteFile UInt8 where
  bytes := l.flatten ++ rest
  offset := offset

/-- A product in the range of `int` is what it is in mathematics. -/
theorem intMul_eq {i : ℕ} (h : i * k < 2 ^ 31) : intMul i k = ((i * k : ℕ) : ℤ) := by
  unfold intMul
  rw [← Int.natCast_mul, Int.bmod_eq_of_le]
  · omega
  · omega

/-- How long records of one length are together. -/
theorem length_flatten_of_forall {l : List (List UInt8)} (h : ∀ r ∈ l, r.length = k) :
    l.flatten.length = l.length * k := by
  induction l with
  | nil => simp
  | cons r l ih =>
    rw [List.flatten_cons, List.length_append, h r List.mem_cons_self,
      ih fun s hs => h s (List.mem_cons_of_mem r hs), List.length_cons, Nat.add_mul, Nat.one_mul,
      Nat.add_comm]

/-- Reading the record at the offset. -/
theorem readRecord_layout (t : Texts) (post : List (List UInt8)) (rest : List UInt8) {o : ℕ}
    (ho : o = pre.length * k) (hpre : ∀ r ∈ pre, r.length = k) (hx : x.length = k) :
    readRecord t k (layout (pre ++ x :: post) rest o) =
      .ok (x, layout (pre ++ x :: post) rest (o + k)) := by
  have hbytes : (pre ++ x :: post).flatten ++ rest =
      pre.flatten ++ x ++ (post.flatten ++ rest) := by simp
  unfold readRecord layout
  rw [hbytes, ho, ← length_flatten_of_forall hpre, ByteFile.read_part _ _ _ hx]
  dsimp only
  rw [if_neg (by simpa using hx)]

/-- Writing a record at the offset. -/
theorem writeRecord_layout (t : Texts) (post : List (List UInt8)) (rest : List UInt8)
    (hk : 1 ≤ k) {o : ℕ} (ho : o = pre.length * k) (hpre : ∀ r ∈ pre, r.length = k)
    (hx : x.length = k) (hy : y.length = k) :
    writeRecord t k y (layout (pre ++ x :: post) rest o) =
      .ok (layout (pre ++ y :: post) rest (o + k)) := by
  have hbytes : ∀ z, (pre ++ z :: post).flatten ++ rest =
      pre.flatten ++ z ++ (post.flatten ++ rest) := by
    intro z
    simp
  unfold writeRecord layout
  rw [hbytes x, hbytes y, ho, ← length_flatten_of_forall hpre,
    ByteFile.write_part _ _ _ hk hx hy]
  dsimp only
  rw [if_neg (by simp)]

/-- **Neighbours the wrong way round change places**, and no others. -/
theorem compareNeighbours_layout (c : CharSign) (t : Texts) (post : List (List UInt8))
    (rest : List UInt8) (hk : 1 ≤ k) (hpre : ∀ r ∈ pre, r.length = k) (hx : x.length = k)
    (hy : y.length = k) (hint : pre.length * k < 2 ^ 31) (change : Bool) (o : ℕ) :
    ∃ o', compareNeighbours c t k pre.length change (layout (pre ++ x :: y :: post) rest o) =
      if c.key y < c.key x then .ok (layout (pre ++ y :: x :: post) rest o', true)
      else .ok (layout (pre ++ x :: y :: post) rest o', change) := by
  have hseek : ∀ l o, (layout l rest o).seek (intMul pre.length k) =
      layout l rest (pre.length * k) := by
    intro l o
    rw [intMul_eq hint, ByteFile.seek_nat]
    rfl
  have hsplit : ∀ z w : List UInt8, pre ++ z :: w :: post = (pre ++ [z]) ++ w :: post := by
    intro z w
    simp
  have hoffset : ∀ z : List UInt8, pre.length * k + k = (pre ++ [z]).length * k := by
    intro z
    simp [Nat.add_mul]
  have hpre' : ∀ z : List UInt8, z.length = k → ∀ r ∈ pre ++ [z], r.length = k := by
    intro z hz r hr
    rcases List.mem_append.mp hr with hr | hr
    · exact hpre r hr
    · rw [List.mem_singleton.mp hr]
      exact hz
  have hread1 := readRecord_layout t (y :: post) rest rfl hpre hx
  have hread2 := readRecord_layout t post rest (hoffset x) (hpre' x hx) hy
  have hwrite1 := writeRecord_layout t (y :: post) rest hk rfl hpre hx hy
  have hwrite2 := writeRecord_layout t post rest hk (hoffset y) (hpre' y hy) hy hx
  rw [← hsplit] at hread2
  rw [← hsplit, ← hsplit] at hwrite2
  refine ⟨pre.length * k + k + k, ?_⟩
  unfold compareNeighbours
  simp only [hseek, hread1, hread2, hwrite1, hwrite2, bind, Except.bind, pure, Except.pure]
  rfl

/-- **The inner loop carries a record** through the next `m`. The induction is on the
iterations left; what is behind the record carried is as the loop leaves it. -/
theorem pass_layout (c : CharSign) (t : Texts) (rest : List UInt8) (hk : 1 ≤ k) {m : ℕ}
    (hpre : ∀ r ∈ pre, r.length = k) (hx : x.length = k) (hpost : ∀ r ∈ post, r.length = k)
    (hm : m ≤ post.length) (hint : ∀ i, i < pre.length + m → i * k < 2 ^ 31) (change : Bool)
    (o : ℕ) :
    ∃ o', pass c t k m pre.length change (layout (pre ++ x :: post) rest o) =
      .ok (layout (pre ++ (carry c.key x m post).1) rest o',
        change || (carry c.key x m post).2) := by
  induction m generalizing pre x post change o with
  | zero =>
    refine ⟨o, ?_⟩
    simp [pass, carry]
  | succ m ih =>
    cases post with
    | nil => simp at hm
    | cons y post =>
      have hy : y.length = k := hpost y List.mem_cons_self
      have hpost' : ∀ r ∈ post, r.length = k := fun r hr => hpost r (List.mem_cons_of_mem y hr)
      have hm' : m ≤ post.length := by simpa using hm
      obtain ⟨o₁, hstep⟩ := compareNeighbours_layout c t post rest hk hpre hx hy
        (hint _ (by omega)) change o
      unfold pass carry
      rw [hstep]
      -- what the records in front are, once the smaller of the two has joined them
      have hnext : ∀ z : List UInt8, z.length = k → (∀ r ∈ pre ++ [z], r.length = k) ∧
          (pre ++ [z]).length = pre.length + 1 ∧
          ∀ i, i < (pre ++ [z]).length + m → i * k < 2 ^ 31 := by
        intro z hz
        have hlen : (pre ++ [z]).length = pre.length + 1 := by simp
        refine ⟨?_, hlen, ?_⟩
        · intro r hr
          rcases List.mem_append.mp hr with hr | hr
          · exact hpre r hr
          · rw [List.mem_singleton.mp hr]
            exact hz
        · intro i hi
          exact hint i (by omega)
      by_cases hlt : c.key y < c.key x
      · obtain ⟨hpre', hlen, hint'⟩ := hnext y hy
        obtain ⟨o₂, hrest⟩ := ih hpre' hx hpost' hm' hint' true o₁
        rw [hlen, List.append_assoc, List.append_assoc] at hrest
        refine ⟨o₂, ?_⟩
        rw [if_pos hlt, if_pos hlt]
        simpa [bind, Except.bind] using hrest
      · obtain ⟨hpre', hlen, hint'⟩ := hnext x hx
        obtain ⟨o₂, hrest⟩ := ih hpre' hy hpost' hm' hint' change o₁
        rw [hlen, List.append_assoc, List.append_assoc] at hrest
        refine ⟨o₂, ?_⟩
        rw [if_neg hlt, if_neg hlt]
        simpa [bind, Except.bind] using hrest

/-- **The outer loop is bubble sort** on the records. -/
theorem passes_layout (c : CharSign) (t : Texts) (rest : List UInt8) (hk : 1 ≤ k) {n : ℕ}
    {l : List (List UInt8)} (hl : ∀ r ∈ l, r.length = k) (hn : n ≤ l.length)
    (hint : ∀ i, i + 1 < n → i * k < 2 ^ 31) (o : ℕ) :
    ∃ o', passes c t k n (layout l rest o) = .ok (layout (bubble c.key n l) rest o') := by
  induction n generalizing l o with
  | zero => exact ⟨0, rfl⟩
  | succ n ih =>
    cases l with
    | nil => simp at hn
    | cons x l =>
      obtain ⟨o₁, hpass⟩ := pass_layout c t rest hk (List.forall_mem_nil _)
        (hl x List.mem_cons_self) (fun r hr => hl r (List.mem_cons_of_mem x hr))
        (Nat.le_of_succ_le_succ hn)
        (fun i hi => hint i (by simp only [List.length_nil] at hi; omega)) false o
      rw [List.nil_append, List.nil_append, Bool.false_or] at hpass
      unfold passes bubble
      rw [List.length_nil] at hpass
      rw [hpass]
      simp only [bind, Except.bind, pure, Except.pure]
      split
      · have hmem : ∀ r ∈ (carry c.key x n l).1, r.length = k :=
          fun r hr => hl r (mem_carry.mp hr)
        have hlen : n ≤ (carry c.key x n l).1.length := by
          rw [length_carry]
          simp only [List.length_cons] at hn ⊢
          omega
        exact ih hmem hlen (fun i hi => hint i (by omega)) _
      · exact ⟨0, rfl⟩

/-- A file that holds `n` records is these, and what follows them. -/
theorem records_append {bytes : List UInt8} {n : ℕ} :
    (records bytes n k).flatten ++ bytes.drop (n * k) = bytes := by
  induction n with
  | zero => simp [records]
  | succ n ih =>
    have hsucc : records bytes (n + 1) k =
        records bytes n k ++ [(bytes.drop (n * k)).take k] := by
      simp [records, List.range_succ]
    rw [hsucc, List.flatten_append, List.flatten_singleton, List.append_assoc, Nat.add_mul,
      Nat.one_mul, ← List.drop_drop, List.take_append_drop, ih]

/-- There are as many records as were asked for. -/
theorem length_records (bytes : List UInt8) (n : ℕ) : (records bytes n k).length = n := by
  simp [records]

/-- A file is laid out as its records. -/
theorem layout_records (bytes : List UInt8) (n o : ℕ) :
    layout (records bytes n k) (bytes.drop (n * k)) o = { bytes := bytes, offset := o } := by
  unfold layout
  rw [records_append]

/-- The records of a file that is made of records. -/
theorem records_flatten {l : List (List UInt8)} (h : ∀ r ∈ l, r.length = k) (rest : List UInt8) :
    records (l.flatten ++ rest) l.length k = l := by
  induction l with
  | nil => rfl
  | cons r l ih =>
    have hr : r.length = k := h r List.mem_cons_self
    have hrest := ih fun s hs => h s (List.mem_cons_of_mem r hs)
    unfold records at hrest ⊢
    rw [List.length_cons, List.range_succ_eq_map, List.map_cons, List.map_map]
    congr 1
    · simp [← hr]
    · refine Eq.trans (List.map_congr_left ?_) hrest
      intro i _
      have hskip : (i + 1) * k = r.length + i * k := by
        rw [hr, Nat.add_mul, Nat.one_mul, Nat.add_comm]
      simp only [Function.comp_apply, Nat.succ_eq_add_one]
      rw [hskip, List.flatten_cons, List.append_assoc, ← List.drop_drop, List.drop_left]

/-- They have the length that was asked for. -/
theorem length_of_mem_records {bytes r : List UInt8} {n : ℕ} (h : n * k ≤ bytes.length)
    (hr : r ∈ records bytes n k) : r.length = k := by
  obtain ⟨i, hi, rfl⟩ := List.mem_map.mp hr
  have hi' : i < n := List.mem_range.mp hi
  have hle : (i + 1) * k ≤ n * k := Nat.mul_le_mul_right k hi'
  rw [Nat.add_mul, Nat.one_mul] at hle
  rw [List.length_take, List.length_drop]
  omega

/-- The file with its first `n` records sorted, stably, by their first bytes. -/
def sortedFile (c : CharSign) (bytes : List UInt8) (n k : ℕ) : List UInt8 :=
  ((records bytes n k).mergeSort fun x y => c.key x ≤ c.key y).flatten ++ bytes.drop (n * k)

/-- Either function, on a file that holds the records. -/
theorem bSort_eq (t : Texts) (c : CharSign) {bytes : List UInt8} {n : ℕ} (hk : 1 ≤ k)
    (hlen : n * k ≤ bytes.length) (hint : ∀ i, i + 1 < n → i * k < 2 ^ 31) :
    bSort t c (some bytes) n k = .ok (sortedFile c bytes n k) := by
  have hl := length_records (k := k) bytes n
  obtain ⟨o, hpasses⟩ := passes_layout c t (bytes.drop (n * k)) hk
    (fun r hr => length_of_mem_records hlen hr) (le_of_eq hl.symm) hint 0
  have hbubble := bubble_eq_mergeSort c.key (records bytes n k)
  rw [hl] at hbubble
  rw [layout_records, hbubble] at hpasses
  unfold bSort
  dsimp only
  rw [hpasses]
  rfl

/-- **The sort in the file**: whatever the signedness of `char`, `bSortSys` and `bSortLib`
return, and the file's first `recordAmount` records are their stable sort by the first byte
while the bytes behind them are as they were.
SOURCE: cw02/zad1/bsort.c:7-128 -/
theorem bSort_sorts (c : CharSign) (bytes : List UInt8) (recordAmount recordSize : ℕ)
    (size_pos : 1 ≤ recordSize) (holds : recordAmount * recordSize ≤ bytes.length)
    (offsets : ∀ i, i + 1 < recordAmount → i * recordSize < 2 ^ 31) :
    bSortSys c (some bytes) recordAmount recordSize =
        .ok (sortedFile c bytes recordAmount recordSize) ∧
      bSortLib c (some bytes) recordAmount recordSize =
        .ok (sortedFile c bytes recordAmount recordSize) := by
  constructor
  · exact bSort_eq sysTexts c size_pos holds offsets
  · exact bSort_eq libTexts c size_pos holds offsets

/-- Three records of two bytes, the last byte of the file in none of them. -/
theorem bSort_sorts_three :
    bSortSys .signed (some [9, 1, 200, 2, 9, 3, 7]) 3 2 =
        .ok (sortedFile .signed [9, 1, 200, 2, 9, 3, 7] 3 2) ∧
      bSortLib .signed (some [9, 1, 200, 2, 9, 3, 7]) 3 2 =
        .ok (sortedFile .signed [9, 1, 200, 2, 9, 3, 7] 3 2) := by
  apply bSort_sorts
  · decide
  · decide
  · intro i hi
    omega

end SystemyOperacyjne.RecordSort
