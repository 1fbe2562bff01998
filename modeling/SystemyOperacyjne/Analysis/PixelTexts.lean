import SystemyOperacyjne.Analysis.PixelMapping
import SystemyOperacyjne.Library.Words
import SystemyOperacyjne.Model.PixelPipe

/-!
# A record in 50 bytes

What a slave prints for a point fits into its buffer, and the master reads the same numbers from
it, whatever has been in the buffer before: the text ends with a zero byte, and `strtok`, `atof`
and `sscanf` find the two coordinates, rounded to six decimals, and the count.
-/

set_option autoImplicit false

namespace SystemyOperacyjne.Pixels

open Library

variable {x re im : ℚ} {iter : ℤ} {buf : List UInt8}

/-! ## One number -/

/-- **What `%lf` prints is read as the rounded number.** -/
theorem atof_printLf (x : ℚ) {rest : List UInt8} (hrest : EndsDigits rest) :
    atof (printLf x ++ rest) = lf x := by
  unfold printLf lf
  rw [atof_printFixed 6 _ _ hrest]
  unfold withSign
  split
  · rename_i hneg
    have hneg : x < 0 := of_decide_eq_true hneg
    have hround : roundHalfEven (x * 10 ^ 6) ≤ 0 := by
      apply roundHalfEven_le
      push_cast
      linarith
    rw [Nat.cast_natAbs, abs_of_nonpos hround]
    push_cast
    ring
  · rename_i hneg
    have hge : 0 ≤ x := not_lt.mp (by simpa using hneg)
    have hround : 0 ≤ roundHalfEven (x * 10 ^ 6) := by
      apply le_roundHalfEven
      push_cast
      linarith
    rw [Nat.cast_natAbs, abs_of_nonneg hround]

/-- The characters of a number. -/
def numeralByte (b : UInt8) : Bool :=
  isDigit b ∨ b = 45 ∨ b = 46

/-- They are no delimiters, and no zero bytes. -/
theorem numeralByte_plain {b : UInt8} (hb : numeralByte b = true) :
    delimiter b = false ∧ b ≠ 0 := by
  have hcases : 48 ≤ b.toNat ∧ b.toNat ≤ 57 ∨ b = 45 ∨ b = 46 := by
    simpa [numeralByte, isDigit] using hb
  rcases hcases with ⟨hlow, hhigh⟩ | rfl | rfl
  · constructor
    · unfold delimiter
      rw [decide_eq_false_iff_not]
      rintro (rfl | rfl | rfl | rfl) <;> revert hlow <;> decide
    · rintro rfl
      revert hlow
      decide
  · decide
  · decide

/-- A sign is one of them. -/
theorem numeralByte_of_mem_signText {negative : Bool} {b : UInt8} (hb : b ∈ signText negative) :
    numeralByte b = true := by
  cases negative with
  | true =>
    rw [List.mem_singleton.mp hb]
    decide
  | false => cases hb

/-- So is a digit. -/
theorem numeralByte_of_isDigit {b : UInt8} (hb : isDigit b = true) : numeralByte b = true := by
  simp [numeralByte, hb]

/-- So is everything that `%lf` prints. -/
theorem numeralByte_of_mem_printLf {b : UInt8} (hb : b ∈ printLf x) : numeralByte b = true := by
  unfold printLf printFixed at hb
  rcases List.mem_append.mp hb with hb | hb
  · rcases List.mem_append.mp hb with hb | hb
    · exact numeralByte_of_mem_signText hb
    · exact numeralByte_of_isDigit (isDigit_of_mem_decimal hb)
  · rcases List.mem_cons.mp hb with rfl | hb
    · decide
    · exact numeralByte_of_isDigit (isDigit_of_mem_fixedDigits hb)

/-- So is everything that `%d` prints. -/
theorem numeralByte_of_mem_printInt {b : UInt8} (hb : b ∈ printInt iter) :
    numeralByte b = true := by
  rcases List.mem_append.mp hb with hb | hb
  · exact numeralByte_of_mem_signText hb
  · exact numeralByte_of_isDigit (isDigit_of_mem_decimal hb)

/-- `%lf` prints something. -/
theorem printLf_ne_nil (x : ℚ) : printLf x ≠ [] := by
  unfold printLf printFixed
  simp

/-- So does `%d`. -/
theorem printInt_ne_nil (iter : ℤ) : printInt iter ≠ [] := by
  unfold printInt
  simp [decimal_ne_nil]

/-! ## One record -/

/-- A text without a zero byte is what a string function finds in the buffer. -/
theorem takeWhile_sprintf {text : List UInt8} (htext : ∀ b ∈ text, b ≠ 0) :
    (sprintf buf text).takeWhile (fun b => b ≠ 0) = text := by
  unfold sprintf
  rw [List.takeWhile_append_of_pos (by simpa using htext), List.takeWhile_cons_of_neg (by simp),
    List.append_nil]

/-- There is no zero byte in a record. -/
theorem zero_not_mem_recordText {b : UInt8} (hb : b ∈ recordText re im iter) : b ≠ 0 := by
  unfold recordText at hb
  simp only [List.mem_append, List.mem_cons, List.not_mem_nil, or_false] at hb
  rcases hb with hb | rfl | hb | rfl | hb | rfl
  · exact (numeralByte_plain (numeralByte_of_mem_printLf hb)).2
  · decide
  · exact (numeralByte_plain (numeralByte_of_mem_printLf hb)).2
  · decide
  · exact (numeralByte_plain (numeralByte_of_mem_printInt hb)).2
  · decide

/-- **What a slave prints the master reads**, whatever was in the buffer and in `iter`. -/
theorem parseRecord_sprintf (re im : ℚ) (iter : ℤ) (buf : List UInt8) (iter' : ℤ) :
    parseRecord (sprintf buf (recordText re im iter)) iter' =
      some { re := lf re, im := lf im, iter } := by
  have hword : ∀ x, ∀ b ∈ printLf x, delimiter b = false :=
    fun x b hb => (numeralByte_plain (numeralByte_of_mem_printLf hb)).1
  have hint : ∀ b ∈ printInt iter, delimiter b = false :=
    fun b hb => (numeralByte_plain (numeralByte_of_mem_printInt hb)).1
  have hends : EndsDigits [] := by
    intro b hb
    cases hb
  have hatof : ∀ x, atof (printLf x) = lf x := by
    intro x
    have h := atof_printLf x hends
    rwa [List.append_nil] at h
  have hscan : sscanfInt (printInt iter) = some iter := by
    have h := sscanfInt_printInt iter hends
    rwa [List.append_nil] at h
  unfold parseRecord
  rw [takeWhile_sprintf fun b hb => zero_not_mem_recordText hb]
  unfold recordText
  rw [strtok_append (printLf_ne_nil re) (hword re) (by decide)]
  simp only [Option.bind_eq_bind, Option.bind_some]
  rw [strtok_append (printLf_ne_nil im) (hword im) (by decide)]
  simp only [Option.bind_some]
  rw [strtok_append (printInt_ne_nil iter) hint (by decide)]
  simp only [Option.bind_some, hatof, hscan, Option.getD_some, pure]

/-! ## The length of a record -/

/-- A number between `-9` and `9` takes nine bytes at most. -/
theorem length_printLf (hlow : -9 ≤ x) (hhigh : x ≤ 9) : (printLf x).length ≤ 9 := by
  have hround : (roundHalfEven (x * 10 ^ 6)).natAbs ≤ 9 * 10 ^ 6 := by
    have h1 : -(9 * 10 ^ 6) ≤ roundHalfEven (x * 10 ^ 6) := by
      apply le_roundHalfEven
      push_cast
      linarith
    have h2 : roundHalfEven (x * 10 ^ 6) ≤ 9 * 10 ^ 6 := by
      apply roundHalfEven_le
      push_cast
      linarith
    omega
  have hwhole : (decimal ((roundHalfEven (x * 10 ^ 6)).natAbs / 10 ^ 6)).length ≤ 1 := by
    rw [length_decimal_le_iff (by decide)]
    omega
  have hsign : ∀ negative, (signText negative).length ≤ 1 := by decide
  have hsign := hsign (x < 0)
  unfold printLf printFixed
  simp only [List.length_append, List.length_cons, length_fixedDigits]
  omega

/-- A count takes ten bytes at most. -/
theorem length_printInt (iter : ℕ) (h : iter < 2 ^ 31) : (printInt iter).length ≤ 10 := by
  have hdecimal : (decimal (iter : ℤ).natAbs).length ≤ 10 := by
    rw [length_decimal_le_iff (by decide)]
    omega
  have hsign : (signText (decide ((iter : ℤ) < 0))).length = 0 := by
    rw [decide_eq_false (by omega)]
    rfl
  unfold printInt
  rw [List.length_append, hsign]
  omega

/-- The loop ends after `K` rounds. -/
theorem iterLoop_le (F : Double) (re im : ℚ) (left i : ℕ) (nre nim : ℚ) :
    iterLoop F re im left i nre nim ≤ i + left := by
  induction left generalizing i nre nim with
  | zero => exact le_rfl
  | succ left ih =>
    unfold iterLoop
    dsimp only
    split
    · omega
    · have h := ih (i + 1) (F.fl (F.fl (F.fl (nre * nre) - F.fl (nim * nim)) + re))
        (F.fl (F.fl (F.fl (2 * nre) * nim) + im))
      omega

/-- There are at most `K` iterations. -/
theorem iterRand_le (F : Double) (K : ℕ) (re im : ℚ) : iterRand F K re im ≤ K := by
  have h := iterLoop_le F re im K 0 0 0
  rwa [Nat.zero_add] at h

/-! ## One block -/

variable {ω : Type} {c : Setting ω} {draw : ℕ × ℕ}

/-- `rand()` does not return more than `RAND_MAX`. -/
def Setting.Drawn (c : Setting ω) (draw : ℕ × ℕ) : Prop :=
  draw.1 ≤ c.RAND_MAX ∧ draw.2 ≤ c.RAND_MAX

instance (c : Setting ω) (draw : ℕ × ℕ) : Decidable (c.Drawn draw) :=
  inferInstanceAs (Decidable (_ ∧ _))

/-- The text for a point and its zero byte fit into the buffer. -/
theorem length_text (hdraw : c.Drawn draw) (hK : c.K < 2 ^ 31) :
    (c.text draw).length < bufSize := by
  obtain ⟨hrMin, hrMax, hiMin, hiMax⟩ := bounds_eq
  have hrange : ∀ (min max : ℤ) (r : ℕ), Bounds min max → r ≤ c.RAND_MAX →
      (printLf (coordinate c.double c.RAND_MAX r min max)).length ≤ 9 := by
    intro min max r h hr
    obtain ⟨hlow, hhigh⟩ := coordinate_mem (F := c.double) h hr
    have hmin : ((-2 : ℤ) : ℚ) ≤ min := Int.cast_le.mpr h.low
    have hmax : (max : ℚ) ≤ ((1 : ℤ) : ℚ) := Int.cast_le.mpr h.high
    push_cast at hmin hmax
    apply length_printLf
    · linarith
    · linarith
  have hre := hrange (-2) 1 draw.1 ⟨by decide, by decide, by decide⟩ hdraw.1
  have him := hrange (-1) 1 draw.2 ⟨by decide, by decide, by decide⟩ hdraw.2
  rw [← hrMin, ← hrMax] at hre
  rw [← hiMin, ← hiMax] at him
  have hcount : ∀ re im, iterRand c.double c.K re im < 2 ^ 31 :=
    fun re im => lt_of_le_of_lt (iterRand_le c.double c.K re im) hK
  have hiter := length_printInt _ (hcount (coordinate c.double c.RAND_MAX draw.1 rMin rMax)
    (coordinate c.double c.RAND_MAX draw.2 iMin iMax))
  unfold Setting.text recordText bufSize
  simp only [List.length_append, List.length_cons, List.length_nil]
  omega

/-- **A point goes through the block unchanged**: the text does not leave the buffer of the slave,
and the master reads from the 50 bytes the coordinates, rounded to six decimals, and the count,
whatever was in the buffers before.
SOURCE: cw05/zad2/slave.c:52-60, cw05/zad2/master.c:49-59 -/
theorem parseRecord_block (hdraw : c.Drawn draw) (hK : c.K < 2 ^ 31) (hbuf : buf.length = bufSize)
    (iter : ℤ) :
    (sprintf buf (c.text draw)).length = bufSize ∧
      parseRecord ((sprintf buf (c.text draw)).take bufSize) iter = some (c.record draw) := by
  have hfits := length_text hdraw hK
  have hlength : (sprintf buf (c.text draw)).length = bufSize := by
    unfold sprintf
    simp only [List.length_append, List.length_cons, List.length_drop, hbuf]
    omega
  refine ⟨hlength, ?_⟩
  rw [← hlength, List.take_length]
  exact parseRecord_sprintf _ _ _ buf iter

/-- For the numerals of `Fin 2`. -/
scoped instance neZero_two : NeZero 2 := ⟨by decide⟩

/-- Two slaves, one with two points and one with one; the pipe has room for two records. -/
def twoSlaves : Setting (Fin 2) where
  double := rational 53
  RAND_MAX := 7
  R := 2
  K := 3
  capacity := 100
  draws
    | 0 => [(0, 0), (3, 5)]
    | 1 => [(3, 5)]

/-- The rest of the buffer is digits. -/
theorem parseRecord_block_of_two :
    (sprintf (List.replicate 50 57) (twoSlaves.text (3, 5))).length = bufSize ∧
      parseRecord ((sprintf (List.replicate 50 57) (twoSlaves.text (3, 5))).take bufSize) 8 =
        some (twoSlaves.record (3, 5)) :=
  parseRecord_block (by decide) (by decide) rfl 8

end SystemyOperacyjne.Pixels
