import SystemyOperacyjne.Analysis.ShuffleCounts
import SystemyOperacyjne.Analysis.SortKey
import SystemyOperacyjne.Model.RecordFiles

/-!
# Generated records, sorted and shuffled

The characters that are generated lie below 128, so the first bytes of the records are sorted in
the same way whether `char` is signed or not. Whatever is done to a generated file with the right
numbers, in whichever order, its records stay the generated ones.
-/

set_option autoImplicit false

namespace SystemyOperacyjne.RecordSort

open Library

variable {c : CharSign} {w w' : Outside} {files : Files} {name source dest : CString} {n k : ℕ}
  {l : List (List UInt8)}

/-! ## What is generated -/

/-- The records that are generated. -/
def generated (c : CharSign) (random : ℕ → UInt8) (n k : ℕ) : List (List UInt8) :=
  (List.range n).map fun i => (List.range k).map fun j => readable c (random (i * k + j))

/-- A record of readable characters. -/
def Readable (k : ℕ) (record : List UInt8) : Prop :=
  record.length = k ∧ ∀ b ∈ record, 46 ≤ b.toNat ∧ b.toNat ≤ 84

/-- The readable characters, by their codes. -/
theorem readable_range (c : CharSign) (b : UInt8) :
    46 ≤ (readable c b).toNat ∧ (readable c b).toNat ≤ 84 := by
  have hlow := Int.lt_tmod_of_pos (c.value b) (by decide : (0 : ℤ) < 20)
  have hhigh := Int.tmod_lt_of_pos (c.value b) (by decide : (0 : ℤ) < 20)
  unfold readable
  rw [UInt8.toNat_ofNat']
  omega

/-- **The loop of the generator.** The induction is on the records left. -/
theorem generateRecords_eq (c : CharSign) (random : ℕ → UInt8) (n k drawn : ℕ) :
    generateRecords c random k n drawn =
      (generated c (fun i => random (drawn + i)) n k).flatten := by
  induction n generalizing drawn with
  | zero => rfl
  | succ n ih =>
    have hrest : generated c (fun i => random (drawn + i)) (n + 1) k =
        ((List.range k).map fun j => readable c (random (drawn + j))) ::
          generated c (fun i => random (drawn + k + i)) n k := by
      unfold generated
      rw [List.range_succ_eq_map, List.map_cons, List.map_map]
      congr 1
      · apply List.map_congr_left
        intro j _
        rw [Nat.zero_mul, Nat.zero_add]
      · apply List.map_congr_left
        intro i _
        apply List.map_congr_left
        intro j _
        have hindex : drawn + ((i + 1) * k + j) = drawn + k + (i * k + j) := by
          rw [Nat.add_mul, Nat.one_mul]
          omega
        dsimp only [Nat.succ_eq_add_one]
        rw [hindex]
    unfold generateRecords
    dsimp only
    rw [hrest, List.flatten_cons, ih, List.map_map]
    rfl

/-- As many records are generated as were asked for. -/
theorem length_generated (c : CharSign) (random : ℕ → UInt8) :
    (generated c random n k).length = n := by
  simp [generated]

/-- They are readable. -/
theorem readable_of_mem_generated {random : ℕ → UInt8} {r : List UInt8}
    (hr : r ∈ generated c random n k) : Readable k r := by
  obtain ⟨i, -, rfl⟩ := List.mem_map.mp hr
  constructor
  · simp
  · intro b hb
    obtain ⟨j, -, rfl⟩ := List.mem_map.mp hb
    exact readable_range c _

/-- A file is what its records are. -/
def Holds (files : Files) (name : CString) (l : List (List UInt8)) (n k : ℕ) : Prop :=
  files name = some (fileOf l) ∧ l.length = n ∧ ∀ r ∈ l, r.length = k

/-- A file that is written to has become one of the records that are written. -/
theorem Holds.written {l' : List (List UInt8)} (h : Holds files name l n k) (hperm : l'.Perm l)
    (dest : CString) : Holds (Function.update files dest (some (fileOf l'))) dest l' n k :=
  ⟨Function.update_self .., hperm.length_eq.trans h.2.1,
    fun r hr => h.2.2 r (hperm.mem_iff.mp hr)⟩

/-- The other files stay. -/
theorem Holds.other (h : Holds files name l n k) (hne : name ≠ dest)
    (file : Option (List UInt8)) : Holds (Function.update files dest file) name l n k :=
  ⟨(Function.update_of_ne hne ..).trans h.1, h.2⟩

/-- A program that succeeds writes its own file only. -/
theorem onFile_ok {f : Option (List UInt8) → Except Exit (List UInt8)} {file : List UInt8}
    (h : f (files name) = .ok file) :
    onFile files name f = .ok (Function.update files name (some file)) := by
  unfold onFile
  rw [h]

/-- The generator leaves its records in the file. -/
theorem generateRecordsFile_holds (c : CharSign) (w : Outside) (files : Files) (name : CString)
    (n k : ℕ) :
    Holds (generateRecordsFile c w files name n k) name (generated c w.random n k) n k := by
  refine ⟨?_, length_generated c w.random, fun r hr => (readable_of_mem_generated hr).1⟩
  unfold generateRecordsFile
  rw [Function.update_self, generateRecords_eq]
  simp only [Nat.zero_add]
  rfl

/-- **Sorting a file of records.** -/
theorem sortFile_holds (a : Access) (c : CharSign) (hk : 1 ≤ k)
    (hint : ∀ i, i + 1 < n → i * k < 2 ^ 31) (h : Holds files name l n k) :
    sortFile a c files name n k = .ok (Function.update files name
      (some (fileOf (l.mergeSort fun x y => c.key x ≤ c.key y)))) := by
  obtain ⟨hfile, hn, hl⟩ := h
  subst hn
  have hlength : (fileOf l).length = l.length * k := length_flatten_of_forall hl
  have hrecords : records (fileOf l) l.length k = l := by
    have hflatten := records_flatten hl []
    rw [List.append_nil] at hflatten
    exact hflatten
  have hsort : ∀ t, bSort t c (files name) l.length k =
      .ok (fileOf (l.mergeSort fun x y => c.key x ≤ c.key y)) := by
    intro t
    rw [hfile, bSort_eq t c hk (le_of_eq hlength.symm) hint]
    unfold sortedFile
    rw [hrecords, ← hlength, List.drop_length, List.append_nil]
    rfl
  cases a with
  | sys => exact onFile_ok (hsort sysTexts)
  | lib => exact onFile_ok (hsort libTexts)

/-- **Shuffling a file of records.** -/
theorem shuffleFile_holds (a : Access) (w : Outside) (hk : 1 ≤ k)
    (hint : ∀ i, i < n → i * k < 2 ^ 31) (h : Holds files name l n k) :
    ∃ l', l'.Perm l ∧
      shuffleFile a w files name n k = .ok (Function.update files name (some (fileOf l'))) := by
  obtain ⟨hfile, hn, hl⟩ := h
  subst hn
  have hmemory : ∀ memory : ℕ → UInt8, ((List.range k).map memory).length = k := by simp
  refine ⟨_, exchanges_perm (partner w.rand) (l.length - 1) l, ?_⟩
  have hshuffle : ∀ a, shuffle a ((List.range k).map w.memory1) ((List.range k).map w.memory2)
      w.rand (files name) l.length k =
        .ok (fileOf (exchanges (partner w.rand) (l.length - 1) l)) := by
    intro a
    rw [hfile]
    exact shuffle_eq a w.rand hk hl hint (hmemory w.memory1) (hmemory w.memory2)
  unfold shuffleFile
  cases a with
  | sys => exact onFile_ok (hshuffle .sys)
  | lib => exact onFile_ok (hshuffle .lib)

/-- **The loop of `copyFile`.** The induction is on the records that are still to be copied. -/
theorem copyRecords_eq (pre post : List (List UInt8)) (hl : ∀ r ∈ pre ++ post, r.length = k) :
    copyRecords k post.length { bytes := (pre ++ post).flatten, offset := pre.flatten.length }
      pre.flatten = .ok (pre ++ post).flatten := by
  induction post generalizing pre with
  | nil =>
    rw [List.append_nil]
    rfl
  | cons r post ih =>
    have hr : r.length = k := hl r (by simp)
    have hread := ByteFile.read_part pre.flatten r post.flatten hr
    have hparts : (pre ++ r :: post).flatten = pre.flatten ++ r ++ post.flatten := by simp
    have hrest := ih (pre ++ [r]) (by simpa using hl)
    have hoffset : (pre ++ [r]).flatten.length = pre.flatten.length + k := by simp [hr]
    rw [List.append_assoc, List.singleton_append, hoffset] at hrest
    rw [List.length_cons]
    unfold copyRecords
    rw [hparts, hread]
    dsimp only
    rw [if_neg (by rw [hr]; simp), ← hparts, ← hrest]
    simp

/-- **Copying a file of records.** -/
theorem copyFile_holds (hne : source ≠ dest) (h : Holds files source l n k) :
    copyFile files source dest n k = .ok (Function.update files dest (some (fileOf l))) := by
  obtain ⟨hfile, hn, hl⟩ := h
  subst hn
  have hcopy := copyRecords_eq [] l (by simpa using hl)
  unfold copyFile
  rw [hfile]
  dsimp only
  rw [Function.update_of_ne hne, hfile, Option.getD_some]
  simp only [List.nil_append, List.flatten_nil, List.length_nil] at hcopy
  rw [fileOf, hcopy]
  dsimp only
  rw [Function.update_idem]

/-! ## Sessions -/

/-- What is done to a file by one run of the program. -/
inductive Job
  | sort (a : Access)
  | shuffle (a : Access)
  deriving DecidableEq, Repr

/-- `sys` or `lib`. -/
def Access.word : Access → CString
  | .sys => cstring "sys"
  | .lib => cstring "lib"

/-- The arguments for a job. -/
def Job.argv (name : CString) (n k : ℕ) : Job → List CString
  | .sort a => [cstring "sort", a.word, name, decimal n, decimal k]
  | .shuffle a => [cstring "shuffle", a.word, name, decimal n, decimal k]

/-- The file is not its first copy. -/
theorem nameFile_ne_copy : nameFile ≠ copy := by
  decide

/-- Nor its second. -/
theorem nameFile_ne_finalCopy : nameFile ≠ finalCopy := by
  decide

/-- The copies are two files. -/
theorem copy_ne_finalCopy : copy ≠ finalCopy := by
  decide

/-- **The first half of a test**: both sorts are given the same file and leave the same file. -/
theorem testSorts_holds (c : CharSign) (w : Outside) (files : Files) (hk : 1 ≤ k)
    (hint : ∀ i, i < n → i * k < 2 ^ 31) :
    ∃ files', testSorts c w n k files = .ok files' ∧
      Holds files' nameFile ((generated c w.random n k).mergeSort fun x y => c.key x ≤ c.key y)
        n k ∧
      Holds files' copy ((generated c w.random n k).mergeSort fun x y => c.key x ≤ c.key y) n k ∧
      Holds files' finalCopy (generated c w.random n k) n k := by
  have hint' : ∀ i, i + 1 < n → i * k < 2 ^ 31 := fun i hi => hint i (by omega)
  have hperm := List.mergeSort_perm (generated c w.random n k) fun x y => c.key x ≤ c.key y
  have hname := generateRecordsFile_holds c w files nameFile n k
  unfold testSorts
  dsimp only
  generalize generateRecordsFile c w files nameFile n k = files₁ at hname ⊢
  have hcopy := hname.written (List.Perm.refl _) copy
  rw [copyFile_holds nameFile_ne_copy hname]
  replace hname := hname.other nameFile_ne_copy (some (fileOf (generated c w.random n k)))
  simp only [bind, Except.bind]
  generalize Function.update files₁ copy _ = files₂ at hname hcopy ⊢
  have hfinal := hname.written (List.Perm.refl _) finalCopy
  rw [copyFile_holds nameFile_ne_finalCopy hname]
  replace hname := hname.other nameFile_ne_finalCopy (some (fileOf (generated c w.random n k)))
  replace hcopy := hcopy.other copy_ne_finalCopy (some (fileOf (generated c w.random n k)))
  dsimp only
  generalize Function.update files₂ finalCopy _ = files₃ at hname hcopy hfinal ⊢
  rw [sortFile_holds .sys c hk hint' hname]
  dsimp only
  replace hname := hname.written hperm nameFile
  rw [sortFile_holds .lib c hk hint' (hcopy.other nameFile_ne_copy.symm _)]
  refine ⟨_, rfl, hname.other nameFile_ne_copy _, ?_, ?_⟩
  · exact (hcopy.other nameFile_ne_copy.symm _).written hperm copy
  · exact (hfinal.other nameFile_ne_finalCopy.symm _).other copy_ne_finalCopy.symm _

/-- **The second half**: both shuffles are given the same file, which is still the generated one,
and leave an order of its records. -/
theorem testShuffles_holds (w w' : Outside) (hk : 1 ≤ k) (hint : ∀ i, i < n → i * k < 2 ^ 31)
    (h : Holds files finalCopy l n k) :
    ∃ files' l₁ l₂, testShuffles w w' n k files = .ok files' ∧
      Holds files' nameFile l₁ n k ∧ l₁.Perm l ∧ Holds files' copy l₂ n k ∧ l₂.Perm l ∧
      Holds files' finalCopy l n k := by
  have hcopy := h.written (List.Perm.refl l) copy
  unfold testShuffles
  rw [copyFile_holds copy_ne_finalCopy.symm h]
  replace h := h.other copy_ne_finalCopy.symm (some (fileOf l))
  simp only [bind, Except.bind]
  generalize Function.update files copy _ = files₁ at h hcopy ⊢
  have hname := h.written (List.Perm.refl l) nameFile
  rw [copyFile_holds nameFile_ne_finalCopy.symm h]
  replace h := h.other nameFile_ne_finalCopy.symm (some (fileOf l))
  replace hcopy := hcopy.other nameFile_ne_copy.symm (some (fileOf l))
  dsimp only
  generalize Function.update files₁ nameFile _ = files₂ at h hcopy hname ⊢
  obtain ⟨l₁, hperm₁, hshuffle₁⟩ := shuffleFile_holds .sys w hk hint hname
  rw [hshuffle₁]
  dsimp only
  replace hcopy := hcopy.other nameFile_ne_copy.symm (some (fileOf l₁))
  obtain ⟨l₂, hperm₂, hshuffle₂⟩ := shuffleFile_holds .lib w' hk hint hcopy
  rw [hshuffle₂]
  refine ⟨_, l₁, l₂, rfl, ?_, hperm₁, hcopy.written hperm₂ copy, hperm₂, ?_⟩
  · exact (hname.written hperm₁ nameFile).other nameFile_ne_copy _
  · exact (h.other nameFile_ne_finalCopy.symm _).other copy_ne_finalCopy.symm _

/-- What is compared in a test: two sorts of one file, and two shuffles of it. -/
structure Compared (c : CharSign) (l : List (List UInt8)) (sorted shuffled : Files) : Prop where
  sort_sys : sorted nameFile = some (fileOf (l.mergeSort fun x y => c.key x ≤ c.key y))
  sort_lib : sorted copy = sorted nameFile
  shuffle_sys : ∃ l', shuffled nameFile = some (fileOf l') ∧ l'.Perm l
  shuffle_lib : ∃ l', shuffled copy = some (fileOf l') ∧ l'.Perm l
  kept : shuffled finalCopy = some (fileOf l)

/-- **One test** sorts and shuffles two copies of the same records. -/
theorem makeTest_compares (c : CharSign) (w w' : Outside) (hk : 1 ≤ k)
    (hint : ∀ i, i < n → i * k < 2 ^ 31) (files : Files) :
    ∃ sorted shuffled, testSorts c w n k files = .ok sorted ∧
      makeTest c w w' n k files = .ok shuffled ∧
      Compared c (generated c w.random n k) sorted shuffled := by
  obtain ⟨sorted, hsorts, hname, hcopy, hfinal⟩ := testSorts_holds c w files hk hint
  obtain ⟨shuffled, l₁, l₂, hshuffles, hname', hperm₁, hcopy', hperm₂, hfinal'⟩ :=
    testShuffles_holds w w' hk hint hfinal
  refine ⟨sorted, shuffled, hsorts, ?_, ?_⟩
  · unfold makeTest
    rw [hsorts]
    exact hshuffles
  · exact ⟨hname.1, hcopy.1.trans hname.1.symm, ⟨l₁, hname'.1, hperm₁⟩, ⟨l₂, hcopy'.1, hperm₂⟩,
      hfinal'.1⟩

/-- **What `maintime` measures**, in each of its tests and whatever the tests before have left: both
sorts are given the same generated file and leave it sorted in the same way; both shuffles are
given that file as it was generated, and leave its records in some order; no test fails.
SOURCE: cw02/zad1/maintime.c:26-80 -/
theorem maintime_compares (c : CharSign) (w w' : ℕ × ℕ → Outside) :
    (∀ files, ∃ files', maintime c w w' files = .ok files') ∧
    ∀ test ∈ tests, ∀ files, ∃ sorted shuffled,
      testSorts c (w test) test.1 test.2 files = .ok sorted ∧
      makeTest c (w test) (w' test) test.1 test.2 files = .ok shuffled ∧
      Compared c (generated c (w test).random test.1 test.2) sorted shuffled := by
  have hone : ∀ test ∈ tests, ∀ files, ∃ sorted shuffled,
      testSorts c (w test) test.1 test.2 files = .ok sorted ∧
      makeTest c (w test) (w' test) test.1 test.2 files = .ok shuffled ∧
      Compared c (generated c (w test).random test.1 test.2) sorted shuffled := by
    have hbound : ∀ test ∈ tests, 1 ≤ test.2 ∧ test.1 * test.2 < 2 ^ 31 := by decide
    intro test htest
    obtain ⟨hpos, hlt⟩ := hbound test htest
    apply makeTest_compares c (w test) (w' test) hpos
    intro i hi
    exact Nat.lt_of_le_of_lt (Nat.mul_le_mul_right test.2 hi.le) hlt
  refine ⟨?_, hone⟩
  have hall : ∀ l : List (ℕ × ℕ), (∀ test ∈ l, test ∈ tests) → ∀ files, ∃ files',
      l.foldlM (fun files test => makeTest c (w test) (w' test) test.1 test.2 files) files =
        Except.ok files' := by
    intro l hl
    induction l with
    | nil => exact fun files => ⟨files, rfl⟩
    | cons test l ih =>
      intro files
      obtain ⟨-, shuffled, -, hmake, -⟩ := hone test (hl test List.mem_cons_self) files
      rw [List.foldlM_cons, hmake]
      exact ih (fun x hx => hl x (List.mem_cons_of_mem test hx)) shuffled
  exact hall tests fun _ h => h

end SystemyOperacyjne.RecordSort
