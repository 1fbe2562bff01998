import Mathlib.Algebra.Notation.Defs
import Mathlib.Data.Int.Notation
import Mathlib.Data.List.Basic
import Mathlib.Data.Nat.Notation

/-!
# Files of bytes

An open file is its bytes and the offset at which the next access begins. Reading is short at
the end of the file; writing past the end extends it, and a gap is filled with zeros. The
rules are about a file that falls into a part before the offset, the part that is accessed,
and the rest.
-/

set_option autoImplicit false

namespace SystemyOperacyjne.Library

/-- An open file. -/
structure ByteFile (β : Type*) where
  bytes : List β
  offset : ℕ
  deriving DecidableEq, Repr

namespace ByteFile

variable {β : Type*}

/-- `lseek(fd, off, SEEK_SET)`; a negative offset is refused. -/
def seek (f : ByteFile β) (off : ℤ) : ByteFile β :=
  if 0 ≤ off then { f with offset := off.toNat } else f

/-- `read(fd, buf, n)`, with the bytes it puts into the buffer. -/
def read (f : ByteFile β) (n : ℕ) : List β × ByteFile β :=
  let data := (f.bytes.drop f.offset).take n
  (data, { f with offset := f.offset + data.length })

/-- `write(fd, buf, n)` of the bytes `data`, with the number it returns. -/
def write [Zero β] (f : ByteFile β) (data : List β) : ℕ × ByteFile β :=
  if data.isEmpty then (0, f)
  else
    let before := f.bytes.take f.offset ++ List.replicate (f.offset - f.bytes.length) 0
    (data.length, { bytes := before ++ data ++ f.bytes.drop (f.offset + data.length),
                    offset := f.offset + data.length })

variable (u v w : List β)

/-- A seek to a natural number goes there. -/
theorem seek_nat (f : ByteFile β) (off : ℕ) : f.seek off = { f with offset := off } := by
  unfold seek
  rw [if_pos (by omega), Int.toNat_natCast]

/-- Seeking moves the offset, or does nothing. -/
theorem exists_seek (f : ByteFile β) (off : ℤ) :
    ∃ o, f.seek off = { bytes := f.bytes, offset := o } := by
  unfold seek
  split
  · exact ⟨_, rfl⟩
  · exact ⟨f.offset, rfl⟩

/-- What is read is the part at the offset. -/
theorem read_part {n : ℕ} (h : v.length = n) :
    ({ bytes := u ++ v ++ w, offset := u.length } : ByteFile β).read n =
      (v, { bytes := u ++ v ++ w, offset := u.length + n }) := by
  subst h
  unfold read
  simp only [List.append_assoc, List.drop_left, List.take_left]

/-- What is written takes the place of the part at the offset. -/
theorem write_part [Zero β] {data : List β} {n : ℕ} (hn : 1 ≤ n) (hv : v.length = n)
    (hdata : data.length = n) :
    ({ bytes := u ++ v ++ w, offset := u.length } : ByteFile β).write data =
      (n, { bytes := u ++ data ++ w, offset := u.length + n }) := by
  have hne : data.isEmpty = false := by
    cases data with
    | nil => simp only [List.length_nil] at hdata; omega
    | cons b data => rfl
  have hgap : u.length - (u ++ v ++ w).length = 0 := by
    simp only [List.length_append]
    omega
  have hrest : (u ++ v ++ w).drop (u.length + data.length) = w := by
    rw [hdata, ← hv, ← List.length_append, List.drop_left]
  unfold write
  rw [if_neg (by simp [hne]), hrest]
  dsimp only
  rw [hgap, hdata, List.append_assoc u v w, List.take_left]
  simp

/-- A write leaves the file at least as long as it was, and as long as it reaches. -/
theorem length_write [Zero β] (f : ByteFile β) {data : List β} (h : data ≠ []) :
    (f.write data).2.bytes.length = max f.bytes.length (f.offset + data.length) := by
  have hne : data.isEmpty = false := by
    cases data with
    | nil => exact absurd rfl h
    | cons b data => rfl
  unfold write
  rw [if_neg (by simp [hne])]
  simp only [List.length_append, List.length_take, List.length_replicate, List.length_drop]
  omega

end ByteFile

end SystemyOperacyjne.Library
