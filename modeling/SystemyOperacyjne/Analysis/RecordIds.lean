import SystemyOperacyjne.Analysis.WordSearchSteps
import SystemyOperacyjne.Model.RecordGenerator

/-!
# The number of a record, written and read

The generator writes a record's number with as many digits as it has (`makeRecord_eq`), and the
search takes two bytes of it. What the search prints for record `k` is `k` exactly when it has at
most two digits (`recordNo_iff`), whatever the text of the record is.
-/

set_option autoImplicit false

namespace SystemyOperacyjne.WordSearch

open Library

variable {rand : Draws} {recordLength i drawn : ℕ}

/-! ## What the generator writes -/

/-- A letter is no zero byte. -/
theorem letterFrom_ne_zero {base : ℕ} (hpos : 0 < base) (hbase : base ≤ 200) (draw : ℕ) :
    letterFrom base draw ≠ 0 := by
  intro hzero
  have hvalue := congrArg UInt8.toNat hzero
  rw [letterFrom, UInt8.toNat_ofNat', UInt8.toNat_zero] at hvalue
  omega

/-- A character of a text is no zero byte. -/
theorem textChar_ne_zero (rand : Draws) (drawn : ℕ) : (textChar rand drawn).1 ≠ 0 := by
  unfold textChar
  split
  · exact letterFrom_ne_zero (by decide) (by decide) _
  · intro hzero
    cases hzero

/-- A byte is changed between what stands before and behind. -/
theorem set_between (before middle after : List UInt8) {n k : ℕ} (hn : n = before.length + k)
    (hk : k < middle.length) (b : UInt8) :
    (before ++ middle ++ after).set n b = before ++ middle.set k b ++ after := by
  subst hn
  rw [List.set_append_left _ _ (by rw [List.length_append]; omega),
    List.set_append_right _ _ (Nat.le_add_right _ _), Nat.add_sub_cancel_left]

/-- The loop fills in text behind what stands in front. The induction is on the iterations left. -/
theorem fillText_eq (rand : Draws) (left : ℕ) (before after : List UInt8) (drawn : ℕ)
    (hleft : left ≤ after.length) :
    ∃ text drawn', fillText rand left before.length (before ++ after) drawn =
        (before ++ text ++ after.drop left, drawn') ∧ text.length = left ∧ 0 ∉ text := by
  induction left generalizing before after drawn with
  | zero => exact ⟨[], drawn, by simp [fillText], rfl, List.not_mem_nil⟩
  | succ left ih =>
    cases after with
    | nil => exact absurd hleft (by simp)
    | cons x after =>
      have hset := set_between before [x] after rfl
        Nat.zero_lt_one (textChar rand drawn).1
      rw [List.append_assoc, List.singleton_append, Nat.add_zero, List.set_cons_zero] at hset
      obtain ⟨text, drawn', hfill, hlength, hzero⟩ := ih (before ++ [(textChar rand drawn).1])
        after (textChar rand drawn).2 (Nat.le_of_succ_le_succ hleft)
      rw [List.length_append, List.length_singleton] at hfill
      refine ⟨(textChar rand drawn).1 :: text, drawn', ?_, ?_, ?_⟩
      · unfold fillText
        simp only [hset]
        rw [hfill, List.append_assoc before [_] text]
        rfl
      · rw [List.length_cons, hlength]
      · intro hmem
        rcases List.mem_cons.mp hmem with hmem | hmem
        · exact textChar_ne_zero rand drawn hmem.symm
        · exact hzero hmem

/-- **A record**: its number, a dot, and text without zero bytes up to the last byte. -/
theorem makeRecord_eq (rand : Draws) (drawn : ℕ) (hlarge : (decimal i).length + 3 ≤ recordLength) :
    ∃ body drawn', makeRecord rand recordLength i drawn =
        (decimal i ++ [46] ++ body ++ [0], drawn') ∧
      (decimal i).length + 2 + body.length = recordLength ∧ 0 ∉ body := by
  have hid : (decimal i ++ [46]).length = (decimal i).length + 1 := by
    rw [List.length_append, List.length_singleton]
  obtain ⟨m, hm⟩ : ∃ m, recordLength = (decimal i).length + 3 + m :=
    ⟨recordLength - (decimal i).length - 3, by omega⟩
  -- the number, and zeros behind it
  have hprint : snprintf (List.replicate recordLength 0) (decimal i ++ [46]) =
      (decimal i ++ [46] ++ [0] ++ List.replicate (m + 1) 0, (decimal i).length + 1) := by
    have hne : ¬ (List.replicate recordLength (0 : UInt8)).isEmpty = true := by
      rw [List.isEmpty_iff_length_eq_zero, List.length_replicate]
      omega
    have hzeros : recordLength - ((decimal i).length + 1 + 1) = m + 1 := by omega
    unfold snprintf
    simp only [List.length_replicate, List.drop_replicate]
    rw [if_neg hne, List.take_of_length_le (by omega), hid, hzeros, List.append_assoc _ [0]]
    rfl
  have hcapital := set_between (decimal i ++ [46]) [0] (List.replicate (m + 1) 0)
    (n := (decimal i).length + 1) hid.symm Nat.zero_lt_one (letterFrom 65 (rand drawn))
  rw [List.set_cons_zero] at hcapital
  -- the text behind the capital letter
  obtain ⟨text, drawn', hfill, hlength, hzero⟩ := fillText_eq rand m
    (decimal i ++ [46] ++ [letterFrom 65 (rand drawn)]) (List.replicate (m + 1) 0) (drawn + 1)
    (by rw [List.length_replicate]; omega)
  rw [List.length_append, hid, List.length_singleton, List.drop_replicate, Nat.add_sub_cancel_left,
    List.append_assoc _ [_] text, List.singleton_append] at hfill
  -- the last letter, and the zero byte behind it
  have hletter := set_between (decimal i ++ [46]) (letterFrom 65 (rand drawn) :: text)
    (List.replicate 1 0)
    (n := recordLength - 2) (k := m) (by rw [hid]; omega) (by rw [List.length_cons]; omega)
    (letterFrom 97 (rand drawn'))
  have hlast := set_between
    (decimal i ++ [46] ++ (letterFrom 65 (rand drawn) :: text).set m (letterFrom 97 (rand drawn')))
    (List.replicate 1 0) [] (n := recordLength - 1) (k := 0)
    (by rw [List.length_append, List.length_set, hid, List.length_cons]; omega) Nat.zero_lt_one 0
  rw [List.append_nil, List.append_nil] at hlast
  refine ⟨(letterFrom 65 (rand drawn) :: text).set m (letterFrom 97 (rand drawn')), drawn' + 1,
    ?_, ?_, ?_⟩
  · have hleft : recordLength - 1 - ((decimal i).length + 1 + 1) = m := by omega
    unfold makeRecord
    simp only [hprint, hcapital, hleft, hfill, hletter, hlast]
    rfl
  · rw [List.length_set, List.length_cons]
    omega
  · intro hmem
    rcases List.mem_or_eq_of_mem_set hmem with hmem | hmem
    · rcases List.mem_cons.mp hmem with hmem | hmem
      · exact letterFrom_ne_zero (by decide) (by decide) _ hmem.symm
      · exact hzero hmem
    · exact letterFrom_ne_zero (by decide) (by decide) _ hmem.symm

/-- A digit is no zero byte. -/
theorem zero_not_mem_decimal (n : ℕ) : 0 ∉ decimal n := by
  intro hmem
  have hdigit := isDigit_of_mem_decimal hmem
  revert hdigit
  decide

/-- What is printed for a record is the record, with a line feed in place of the zero byte. -/
theorem printRecord_eq {body : List UInt8} (hzero : 0 ∉ body) :
    printRecord (decimal i ++ [46] ++ body ++ [0]) = decimal i ++ [46] ++ body ++ [10] := by
  have hall : ∀ b ∈ decimal i ++ [46] ++ body, decide (b ≠ 0) = true := by
    intro b hb
    rw [decide_eq_true_iff]
    rintro rfl
    rcases List.mem_append.mp hb with hb | hb
    · rcases List.mem_append.mp hb with hb | hb
      · exact zero_not_mem_decimal i hb
      · rw [List.mem_singleton] at hb
        revert hb
        decide
    · exact hzero hb
  unfold printRecord
  rw [List.takeWhile_append_of_pos hall, List.takeWhile_cons_of_neg (by decide), List.append_nil]

/-- The record with number `k` in a file of records of one length. -/
def recordOf (file : List UInt8) (recordLength k : ℕ) : List UInt8 :=
  (file.drop ((k - 1) * recordLength)).take recordLength

/-- What is printed for one record is as long as the record. -/
theorem printRecord_makeRecord (rand : Draws) (drawn : ℕ)
    (hlarge : (decimal i).length + 3 ≤ recordLength) : ∃ body,
      printRecord (makeRecord rand recordLength i drawn).1 = decimal i ++ [46] ++ body ++ [10] ∧
      (printRecord (makeRecord rand recordLength i drawn).1).length = recordLength := by
  obtain ⟨body, drawn', hrecord, hlength, hzero⟩ := makeRecord_eq rand drawn hlarge
  refine ⟨body, ?_, ?_⟩
  · rw [hrecord, printRecord_eq hzero]
  · rw [hrecord, printRecord_eq hzero, List.length_append, List.length_append, List.length_append,
      List.length_singleton, List.length_singleton]
    omega

/-- The records fill the file. -/
theorem length_generateFrom {left : ℕ}
    (hlarge : ∀ j, i ≤ j → j < i + left → (decimal j).length + 3 ≤ recordLength) :
    (generateFrom rand recordLength left i drawn).length = left * recordLength := by
  induction left generalizing i drawn with
  | zero => rw [Nat.zero_mul]; rfl
  | succ left ih =>
    obtain ⟨_, -, hsize⟩ := printRecord_makeRecord rand drawn (hlarge i (le_refl i) (by omega))
    unfold generateFrom
    simp only
    rw [List.length_append, hsize, ih fun j hj hj' => hlarge j (by omega) (by omega), Nat.add_mul,
      Nat.one_mul, Nat.add_comm]

/-- **The records of the file.** The induction is on the records left. -/
theorem generateFrom_record (rand : Draws) (drawn : ℕ) {left k : ℕ}
    (hlarge : ∀ j, i ≤ j → j < i + left → (decimal j).length + 3 ≤ recordLength) (hik : i ≤ k)
    (hk : k < i + left) : ∃ body,
      ((generateFrom rand recordLength left i drawn).drop ((k - i) * recordLength)).take
          recordLength = decimal k ++ [46] ++ body ++ [10] := by
  induction left generalizing i drawn with
  | zero => omega
  | succ left ih =>
    obtain ⟨body, hprint, hsize⟩ := printRecord_makeRecord rand drawn
      (hlarge i (le_refl i) (by omega))
    unfold generateFrom
    simp only
    by_cases hkeq : k = i
    · refine ⟨body, ?_⟩
      rw [hkeq, Nat.sub_self, Nat.zero_mul, List.drop_zero, List.take_append_of_le_length hsize.ge,
        List.take_of_length_le hsize.le, hprint]
    · obtain ⟨body', hrest⟩ := ih (makeRecord rand recordLength i drawn).2 (i := i + 1)
        (fun j hj hj' => hlarge j (by omega) (by omega)) (by omega) (by omega)
      refine ⟨body', ?_⟩
      have hskip : (k - i) * recordLength =
          (printRecord (makeRecord rand recordLength i drawn).1).length +
            (k - (i + 1)) * recordLength := by
        rw [hsize, show k - i = k - (i + 1) + 1 by omega, Nat.add_mul, Nat.one_mul, Nat.add_comm]
      rw [hskip, ← List.drop_drop, List.drop_left]
      exact hrest

/-! ## What the search reads -/

/-- **Two bytes hold a number of at most two digits**, and no other. -/
theorem recordNo_iff {k : ℕ} (rest : List UInt8) :
    recordNo (decimal k ++ [46] ++ rest) = k ↔ k ≤ 99 := by
  have hlength : (strncpy (decimal k ++ [46] ++ rest) 2).length ≤ 2 := by
    unfold strncpy
    have htake : (((decimal k ++ [46] ++ rest).take 2).takeWhile fun b => b ≠ 0).length ≤ 2 :=
      (List.takeWhile_prefix _).length_le.trans (List.length_take_le 2 _)
    simp only [List.length_append, List.length_replicate]
    omega
  constructor
  · intro hsame
    have hlt := atoi_lt hlength (by decide)
    unfold recordNo at hsame
    rw [hsame] at hlt
    omega
  · intro hk
    have hdigits : (decimal k).length ≤ 2 :=
      (length_decimal_le_iff (by decide)).mpr (by omega)
    have hnonempty := List.length_pos_iff.mpr (decimal_ne_nil k)
    -- behind a single digit the dot is copied too
    have htake : (decimal k ++ [46] ++ rest).take 2 =
        decimal k ++ [46].take (2 - (decimal k).length) := by
      rw [List.append_assoc, List.take_append, List.take_of_length_le hdigits,
        List.take_append_of_le_length (by rw [List.length_singleton]; omega)]
    have hall : ∀ b ∈ decimal k ++ [46].take (2 - (decimal k).length), decide (b ≠ 0) = true := by
      intro b hb
      rw [decide_eq_true_iff]
      rintro rfl
      rcases List.mem_append.mp hb with hb | hb
      · exact zero_not_mem_decimal k hb
      · have hmem := List.mem_of_mem_take hb
        rw [List.mem_singleton] at hmem
        revert hmem
        decide
    have hcopy : strncpy (decimal k ++ [46] ++ rest) 2 =
        decimal k ++ [46].take (2 - (decimal k).length) := by
      unfold strncpy
      simp only
      rw [htake, List.takeWhile_eq_self_iff.mpr hall]
      have hfull : (decimal k ++ [(46 : UInt8)].take (2 - (decimal k).length)).length = 2 := by
        rw [List.length_append, List.length_take, List.length_singleton]
        omega
      rw [hfull, Nat.sub_self, List.replicate_zero, List.append_nil]
    unfold recordNo
    rw [hcopy]
    apply atoi_decimal_append (by omega)
    intro b hb
    have hmem := List.mem_of_mem_take (List.mem_of_mem_head? hb)
    rw [List.mem_singleton.mp hmem]
    decide

/-- The file is read in blocks, and a buffer holds the record that was read into it. -/
structure Blocks {T : ℕ} (c : Setting T) (s : State T) : Prop where
  offset : ∃ r, s.offset = min c.file.length (r * BUFFSIZE)
  length : ∀ t i, ((s.thread t).readingBuffer i).bytes.length = BUFFSIZE
  held : ∀ t i r, ((s.thread t).readingBuffer i).record = some r →
    ((s.thread t).readingBuffer i).bytes = recordAt c.file r

variable {T : ℕ} {c : Setting T} {s s' : State T} {e : Option (Report T)}

/-- It depends on the offset and the buffers only. -/
theorem Blocks.of_eq (h : Blocks c s) (hoffset : s'.offset = s.offset)
    (hbuffers : ∀ x, (s'.thread x).readingBuffer = (s.thread x).readingBuffer) : Blocks c s' := by
  constructor
  · rw [hoffset]
    exact h.offset
  · intro t i
    rw [hbuffers]
    exact h.length t i
  · intro t i
    rw [hbuffers]
    exact h.held t i

/-- Nothing has been read in the beginning. -/
theorem blocks_start : Blocks c (start c) := by
  constructor
  · exact ⟨0, by rw [Nat.zero_mul, Nat.min_zero]; rfl⟩
  · intro t i
    exact List.length_replicate
  · intro t i r hrecord
    cases hrecord

/-- A read keeps it. -/
theorem Blocks.read (h : Blocks c s) (hwhole : c.Whole) (t : Fin T) (i : ℕ) :
    Blocks c ((s.readRecord c.file t i).goto t (.read (i + 1))) := by
  obtain ⟨r, hoffset⟩ := h.offset
  have hread := readInto hoffset t i
  have hcases : ∀ x j, (((s.readRecord c.file t i).goto t (.read (i + 1))).thread x).readingBuffer
      j = (s.thread x).readingBuffer j ∨
      (((s.readRecord c.file t i).goto t (.read (i + 1))).thread x).readingBuffer j =
        ((s.thread x).readingBuffer j).overlay c.file r := by
    intro x j
    by_cases hx : x = t
    · subst hx
      by_cases hj : j = i
      · subst hj
        exact Or.inr hread.buffer
      · exact Or.inl (hread.buffer_of_ne hj)
    · left
      rw [hread.of_ne x hx]
  constructor
  · exact ⟨r + 1, hread.offset⟩
  · intro x j
    rcases hcases x j with heq | heq
    · rw [heq]
      exact h.length x j
    · rw [heq]
      exact length_overlay c.file r (h.length x j)
  · intro x j r'
    rcases hcases x j with heq | heq
    · rw [heq]
      exact h.held x j r'
    · rw [heq]
      by_cases hr : r < c.records
      · rw [overlay_of_lt hwhole hr (h.length x j)]
        intro hsome
        rw [Option.some.inj hsome]
      · rw [overlay_of_ge hwhole (by omega)]
        exact h.held x j r'

/-- **Every step keeps it**, and reports a buffer as it is. -/
theorem Blocks.step (h : Blocks c s) (hwhole : c.Whole) (hstep : Step c s e s') :
    (∀ report r, e = some report → report.buffer.record = some r →
      report.buffer.bytes = recordAt c.file r) ∧ Blocks c s' := by
  cases hstep with
  | read _ _ =>
    refine ⟨?_, h.read hwhole _ _⟩
    intro report r he
    cases he
  | @print t i hpc =>
    refine ⟨?_, h.of_eq (State.goto_offset _ _) fun x => State.goto_readingBuffer _ _ _⟩
    intro report r he
    cases he
    exact h.held t i r
  | _ =>
    refine ⟨?_, h.of_eq ?_ fun x => ?_⟩
    · intro report r he
      cases he
    · simp
    · simp

/-- **The number of a record.** What the search takes from record `k` of a generated file is `k`
exactly when it has at most two digits; if the records are as long as its buffers, this is what
it prints in any run when it reports record `k`.
SOURCE: cw08/zad1/generator.c:21-35, cw08/zad1/main.c:77-84, cw08/zad1/main.c:118-122 -/
theorem recordNo_generated_iff (rand : Draws) {recordsNo recordLength k : ℕ}
    (large : ∀ j, 1 ≤ j → j ≤ recordsNo → (decimal j).length + 3 ≤ recordLength)
    (first : 1 ≤ k) (last : k ≤ recordsNo) :
    (∀ rest, recordNo
        (recordOf (generator rand recordsNo recordLength) recordLength k ++ rest) = k ↔ k ≤ 99) ∧
      ∀ (T : ℕ) (c : Setting T), c.file = generator rand recordsNo recordLength →
        recordLength = BUFFSIZE → ∀ l s, (program c).system.Run (start c) l s →
          ∀ report, some report ∈ l → report.buffer.record = some (k - 1) →
            (recordNo report.buffer.bytes = k ↔ k ≤ 99) := by
  have hlarge : ∀ j, 1 ≤ j → j < 1 + recordsNo → (decimal j).length + 3 ≤ recordLength :=
    fun j hj hj' => large j hj (by omega)
  obtain ⟨body, hrecord⟩ := generateFrom_record rand 0 hlarge first (by omega)
  constructor
  · intro rest
    unfold recordOf generator
    rw [hrecord, List.append_assoc, List.append_assoc]
    exact recordNo_iff _
  · intro T c hfile hsize l s hrun report hmem hnumber
    have hwhole : c.Whole := by
      unfold Setting.Whole
      rw [hfile, generator, length_generateFrom hlarge, hsize]
      exact Dvd.intro_left recordsNo rfl
    have hlabels := Library.System.Run.labels (T := (program c).system) (I := Blocks c)
      (fun _ _ _ h hstep => h.step hwhole (.of_system hstep)) hrun blocks_start
    have hbytes := hlabels _ hmem report (k - 1) rfl hnumber
    subst hsize
    unfold generator at hfile
    unfold recordAt at hbytes
    rw [hbytes, hfile, hrecord, List.append_assoc]
    exact recordNo_iff _

/-- Twelve records as long as a buffer. -/
theorem recordNo_generated_iff_twelve :
    (∀ rest, recordNo (recordOf (generator (fun _ => 7) 12 1024) 1024 12 ++ rest) =
        ((12 : ℕ) : ℤ) ↔ 12 ≤ 99) ∧
      ∀ (T : ℕ) (c : Setting T), c.file = generator (fun _ => 7) 12 1024 →
        1024 = BUFFSIZE → ∀ l s, (program c).system.Run (start c) l s →
          ∀ report, some report ∈ l → report.buffer.record = some (12 - 1) →
            (recordNo report.buffer.bytes = ((12 : ℕ) : ℤ) ↔ 12 ≤ 99) := by
  apply recordNo_generated_iff
  · intro j _ hj
    have hlength := (length_decimal_le_iff (n := j) (m := 2) (by decide)).mpr (by omega)
    omega
  · decide
  · decide

/-- The number of the hundredth record is read as ten. -/
theorem recordNo_hundred :
    recordNo (recordOf (generator (fun _ => 7) 100 8) 8 100) ≠ 100 := by
  have hread : recordNo (recordOf (generator (fun _ => 7) 100 8) 8 100) = 10 := by
    decide +kernel
  rw [hread]
  decide

end SystemyOperacyjne.WordSearch
