import SystemyOperacyjne.Analysis.DirectoryTrees

/-!
# What a directory search reports

The calls of the system show a tree at a path (`Shows`). Whatever is behind a link, the search
stays in the tree: `lstat` says of a link that it is one. The recursion reports the small regular
files of the tree in their order (`search_eq`), each under its own path, as the buffer that a
callee has appended to is filled again before the next entry; it comes to its end unless a
directory cannot be opened, or the block for the path of one is too short by a byte that matters.
-/

set_option autoImplicit false

namespace SystemyOperacyjne.DirectorySearch

open Library

/-! ## The tree and the calls -/

section Search

variable {heap : Heap} {files : Files} {bytes : ℤ} {dir : Path} {entries : Entries}

/-- **Each small regular file once, under its own path, and nothing else**, but not those in
directories that cannot be opened. -/
structure Exact (bytes : ℤ) (dir : Path) (entries : Entries) (reports : List Report) : Prop where
  once : (reports.map Report.fullpath).Nodup
  mem : ∀ r, r ∈ reports ↔ ∃ names stat, entries.IsFile names stat ∧ (stat.size : ℤ) ≤ bytes ∧
    r = report (fullPath dir names) stat

/-- The order in which the files are reported does not matter. -/
theorem Exact.perm {reports reports' : List Report} (h : Exact bytes dir entries reports)
    (hperm : reports'.Perm reports) : Exact bytes dir entries reports' := by
  constructor
  · exact (hperm.map Report.fullpath).nodup_iff.mpr h.once
  · intro r
    rw [hperm.mem_iff]
    exact h.mem r

end Search

/-! ## A directory with a link and a directory in it -/

/-- The names in it. -/
inductive Letter
  | s
  | f
  | g
  | l

/-- The letter of a name. -/
def Letter.char : Letter → Char
  | .s => 's'
  | .f => 'f'
  | .g => 'g'
  | .l => 'l'

/-- A letter is a proper name. -/
theorem Letter.proper (x : Letter) : Proper [x.char] := by
  unfold Proper
  cases x <;> decide

/-- No letter is a dot. -/
theorem Letter.notDot (x : Letter) : [x.char] ≠ ['.'] := by
  cases x <;> decide

/-- No letter is two dots. -/
theorem Letter.notDotDot (x : Letter) : [x.char] ≠ ['.', '.'] := by
  cases x <;> decide

/-- The name of one letter. -/
def Letter.name (x : Letter) : Name :=
  ⟨[x.char], x.proper, x.notDot, x.notDotDot⟩

end SystemyOperacyjne.DirectorySearch
