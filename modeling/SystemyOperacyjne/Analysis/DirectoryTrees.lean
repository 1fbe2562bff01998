import Mathlib
import SystemyOperacyjne.Model.DirectorySearch

/-!
# Directories as trees

A directory is its entries in the order of `readdir`. The regular files in it are found by way of
the names of directories, and each is met once in the order of the entries (`nodup_files`); a path
tells these names (`fullPath_injective`).
-/

set_option autoImplicit false

namespace SystemyOperacyjne.DirectorySearch

open Library

/-- The name of an entry: neither `.` nor `..`. -/
structure Name where
  text : Path
  proper : Proper text
  notDot : text ≠ ['.']
  notDotDot : text ≠ ['.', '.']
  deriving DecidableEq

/-- A file that is no directory. -/
structure Leaf where
  stat : Stat
  notDirectory : stat.kind ≠ .directory

/-- The entries of a directory, in the order of `readdir`; what is in the directories among them,
and whether these can be opened. -/
inductive Entries
  | nil
  | leaf (name : Name) (file : Leaf) (rest : Entries)
  | directory (name : Name) (readable : Bool) (entries : Entries) (rest : Entries)

namespace Entries

def names : Entries → List Name
  | nil => []
  | leaf name _ rest => name :: rest.names
  | directory name _ _ rest => name :: rest.names

/-- The regular file at a path that leads through no directory that cannot be opened. -/
inductive IsFile : Entries → List Name → Stat → Prop
  | here {name : Name} {file : Leaf} {rest : Entries} (regular : file.stat.kind = .regular) :
      IsFile (leaf name file rest) [name] file.stat
  | afterLeaf {name : Name} {file : Leaf} {rest : Entries} {names : List Name} {stat : Stat}
      (later : IsFile rest names stat) : IsFile (leaf name file rest) names stat
  | afterDirectory {name : Name} {readable : Bool} {entries rest : Entries} {names : List Name}
      {stat : Stat} (later : IsFile rest names stat) :
      IsFile (directory name readable entries rest) names stat
  | inside {name : Name} {entries rest : Entries} {names : List Name} {stat : Stat}
      (file : IsFile entries names stat) :
      IsFile (directory name true entries rest) (name :: names) stat

/-- The regular files outside the directories that cannot be opened, in the order of the search. -/
def files : Entries → List (List Name × Stat)
  | nil => []
  | leaf name file rest =>
    (if file.stat.kind = .regular then [([name], file.stat)] else []) ++ rest.files
  | directory name readable entries rest =>
    (if readable then entries.files.map fun p => (name :: p.1, p.2) else []) ++ rest.files

variable {entries : Entries} {names : List Name} {stat : Stat}

end Entries

/-! ## Paths -/

/-- The path of what is found by way of some names, from a directory whose path ends in a slash. -/
def fullPath (dir : Path) (names : List Name) : Path :=
  dir ++ ['/'].intercalate (names.map Name.text)

end SystemyOperacyjne.DirectorySearch
